import QueryPlanner.JoinOrder.Search
import QueryPlanner.Proofs.Demand
import QueryPlanner.Proofs.JoinOrder.Reduce
import QueryPlanner.Proofs.Logs
import QueryPlanner.Proofs.Plan

namespace QueryPlanner

open Unlimited

def Plan.joined {ν : Type} : Plan ν → List Nat
  | scan _ _                     => []
  | select _ _ i | project _ _ i => i.joined
  | product _ l r                => l.joined ++ r.joined
  | join _ p l r                 => p.occurrence :: (l.joined ++ r.joined)

open Run (Logs)

variable {js : List Nat} {d : Demand} {q r : Plan Relation} {options : Options}

theorem narrow_logs (h : q.joined ⊆ js) :
    Logs (narrow q) d fun r d' ks => ks = [] ∧ d' = d ∧ r.joined ⊆ js := by
  have hw : q.withoutProjection.joined = q.joined := by cases q <;> rfl
  refine Run.logs_demand_bind ?_
  split
  case isTrue  => exact Run.logs_pure ⟨rfl, rfl, h⟩
  case isFalse =>
    dsimp only
    split
    case isTrue  => exact Run.logs_report_bind (Run.logs_pure ⟨rfl, rfl, nofun⟩)
    case isFalse =>
      split
      case isTrue  => exact Run.logs_pure ⟨rfl, rfl, h⟩
      case isFalse => exact Run.logs_pure ⟨rfl, rfl, by rw [← hw] at h; exact h⟩

theorem joined_selecting {p : Predicate} (h : Plan.selecting p q = .ok r) :
    r.joined = q.joined := by
  obtain ⟨s, _, rfl⟩ := Plan.selecting_eq_ok_iff.mp h
  rfl

def Candidate.number? (k : Candidate) : Option Nat :=
  k.predicate.map JoinPredicate.occurrence

-- A plan for a candidate. It has the join of the candidate at its root, if there is one.
structure Candidate.Realised (js : List Nat) (k : Candidate) (q : Plan Relation) : Prop where
  within   : q.joined ⊆ js ++ k.number?.toList
  reported : ∀ n, (Event.materialised q.operator n).joined? = k.number?

namespace Components

variable {c : Components} {k : Candidate} {ks : List Candidate} {leaves : List Handle}

def Within (js : List Nat) (c : Components) : Prop :=
  ∀ plan ∈ c.plans, plan.joined ⊆ js

namespace Within

theorem mono {ks : List Nat} (w : c.Within js) (h : js ⊆ ks) : c.Within ks :=
  fun q hq => List.Subset.trans (w q hq) h

theorem add (w : c.Within js) (h : q.joined ⊆ js) : (c.add q).2.Within js := by
  intro p hp
  obtain hp | rfl := Array.mem_push.mp hp
  · exact w p hp
  · exact h

theorem replace (w : c.Within js) (h : q.joined ⊆ js) (x : Handle) : (c.replace x q).Within js := by
  intro p hp
  obtain hp | rfl := Array.mem_or_eq_of_mem_setIfInBounds hp
  · exact w p hp
  · exact h

theorem plan (w : c.Within js) (x : Handle) :
    Logs (c.plan x) d fun q d' ks => ks = [] ∧ d' = d ∧ q.joined ⊆ js := by
  unfold Components.plan
  split
  case h_1 hp => exact Run.logs_pure ⟨rfl, rfl, w _ (Array.mem_of_getElem? hp)⟩
  case h_2    => exact Run.logs_fail

theorem selectWithin (w : c.Within js) (k : Handle × JoinPredicate) (d : Demand) :
    Logs (c.selectWithin k) d fun c' _ ks => ks = [] ∧ c'.Within js := by
  refine (w.plan k.1).bind_nil fun q _ ⟨_, hp⟩ => Run.logs_ofEstimate_bind fun r hr => ?_
  refine Run.logs_modify_bind <| (narrow_logs (joined_selecting hr ▸ hp)).bind_nil ?_
  exact fun r' _ ⟨_, hr'⟩ => Run.logs_pure ⟨rfl, w.add hr'⟩

theorem settle_go (w : c.Within js) (fuel : Nat) (ks : List Candidate) (d : Demand) :
    Logs (settle.go fuel c ks) d fun r _ ls => ls = [] ∧ r.1.Within js ∧ r.2.Sublist ks := by
  induction fuel generalizing c ks d
  case zero         => exact Run.logs_pure ⟨rfl, w, .refl ks⟩
  case succ fuel hi =>
    rw [settle.go]
    split
    case h_1 => exact Run.logs_pure ⟨rfl, w, List.filter_sublist⟩
    case h_2 =>
      refine Logs.bind_nil (Q := fun c' _ => c'.Within js)
        (Run.logs_foldlM (fun _ k d w => Within.selectWithin w k d) _ c d w) fun c' d' w' => ?_
      exact (hi w' _ d').mono fun _ _ _ h =>
        ⟨h.left, h.right.left, h.right.right.trans List.filter_sublist⟩

theorem agenda (w : c.Within js) (leaves : List Handle) (ks : List Candidate) (d : Demand) :
    Logs (c.agenda leaves ks) d fun r _ ls => ls = [] ∧ r.1.Within js ∧
      (r.2.filterMap Candidate.number?).Sublist (ks.filterMap Candidate.number?) := by
  refine (w.settle_go ks.length ks d).bind_nil fun r d' ⟨hw, hs⟩ => ?_
  dsimp only
  split
  case isFalse => exact Run.logs_pure ⟨rfl, hw, hs.filterMap _⟩
  case isTrue  =>
    have hp : (Candidate.pairs (r.1.live leaves)).filterMap Candidate.number? = [] := by
      refine List.filterMap_eq_nil_iff.mpr fun k hk => ?_
      rw [Candidate.number?, (Candidate.mem_pairs (nodup_live ..) hk).left]
      rfl
    split
    case isTrue  => exact Run.logs_report_bind <| Run.logs_pure ⟨rfl, hw, hp ▸ List.nil_sublist _⟩
    case isFalse => exact Run.logs_pure ⟨rfl, hw, hp ▸ List.nil_sublist _⟩

theorem finish (w : c.Within js) (leaves : List Handle) (d : Demand) :
    Logs (c.finish leaves) d fun q _ ks => ks = [] ∧ q.joined ⊆ js := by
  unfold Components.finish
  split
  case h_1 => exact Run.logs_pure ⟨rfl, nofun⟩
  case h_2 => exact (w.plan _).mono fun _ _ _ ⟨hk, _, hq⟩ => ⟨hk, hq⟩

theorem build (w : c.Within js) (k : Candidate) (d : Demand) :
    Logs (c.build k) d fun q d' ks => ks = [] ∧ d' = d ∧ k.Realised js q := by
  refine (w.plan k.left).bind_nil fun l _ ⟨hd, hl⟩ => ?_
  refine (w.plan k.right).bind_nil fun r _ ⟨hd', hr⟩ => ?_
  subst hd hd'
  have hlr : l.joined ++ r.joined ⊆ js := List.append_subset.mpr ⟨hl, hr⟩
  cases hk : k.predicate
  case none =>
    have hn : k.number? = none := by rw [Candidate.number?, hk]; rfl
    refine Run.logs_pure ⟨rfl, rfl, ?_, fun _ => hn.symm⟩
    rw [hn, Option.toList_none, List.append_nil]
    exact hlr
  case some p =>
    have turned (b : Bool) : (if b then p.swapped else p).occurrence = p.occurrence := by
      cases b <;> rfl
    have hn : k.number? = some p.occurrence := by rw [Candidate.number?, hk]; rfl
    dsimp only
    rw [← bind_pure (Run.ofEstimate _)]
    refine Run.logs_ofEstimate_bind fun q hq => ?_
    obtain ⟨s, _, rfl⟩ := Plan.joining_eq_ok_iff.mp hq
    refine Run.logs_pure ⟨rfl, rfl, List.cons_subset.mpr ⟨?_, ?_⟩, fun _ => ?_⟩
    · rw [turned, hn]
      simp
    · exact List.Subset.trans hlr (List.subset_append_left ..)
    · exact hn ▸ congrArg some (turned _)

theorem cheapest (w : c.Within js) (ho : options.reorderJoins = false) (first : Candidate)
    (rest : List Candidate) (d : Demand) :
    Logs (c.cheapest options first rest) d fun r _ ks => ks = [] ∧ r.1 = first ∧
      first.Realised js r.2 := by
  have hc : Logs (c.cost first) d fun r _ ks => ks = [] ∧ r.1 = first ∧ first.Realised js r.2 :=
    (w.build first d).bind_nil fun q d' ⟨_, hq⟩ =>
      Run.logs_report_bind <| Run.logs_pure ⟨rfl, rfl, hq⟩
  rw [Components.cheapest, ho]
  exact hc.bind_nil fun _ _ hb => Run.logs_pure ⟨rfl, hb⟩

theorem materialise (w : c.Within js) {k : Candidate} (h : k.Realised js q) (d : Demand) :
    Logs (c.materialise k q) d fun c' _ ks => ks = k.number?.toList ∧ c'.Within (js ++ ks) := by
  have w' : c.Within (js ++ k.number?.toList) := w.mono (List.subset_append_left ..)
  have goal (d : Demand) : Logs (narrow q >>= fun r => pure
      (((c.add r).2.redirect k.left (c.add r).1).redirect k.right (c.add r).1)) d fun c' _ ks =>
        k.number?.toList ++ ks = k.number?.toList ∧ c'.Within (js ++ (k.number?.toList ++ ks)) :=
    (narrow_logs h.within).bind_nil fun r _ ⟨_, hr⟩ => Run.logs_pure <| by
      rw [List.append_nil]
      exact ⟨rfl, w'.add hr⟩
  refine Run.logs_report_bind ?_
  rw [h.reported]
  split
  case h_1 => exact Run.logs_modify_bind (goal _)
  case h_2 => exact goal d

-- The first candidate is taken in every round, so that joins are materialised as they are listed.
theorem reduce (w : c.Within js) (ho : options.reorderJoins = false) (leaves : List Handle)
    (fuel : Nat) (ks : List Candidate) (d : Demand) :
    Logs (c.reduce options leaves fuel ks) d fun q _ ls =>
      ls.Sublist (ks.filterMap Candidate.number?) ∧ q.joined ⊆ js ++ ls := by
  induction fuel generalizing c js ks d
  case zero         => exact Run.logs_fail
  case succ fuel hi =>
    refine (w.agenda leaves ks d).bind_nil fun r d' ⟨w', hs⟩ => ?_
    obtain ⟨c', _ | ⟨first, rest⟩⟩ := r
    case nil =>
      refine (w'.finish leaves d').mono fun q _ ls ⟨hl, hq⟩ => ?_
      subst hl
      exact ⟨List.nil_sublist _, by rwa [List.append_nil]⟩
    case cons =>
      refine (w'.cheapest ho first rest d').bind_nil fun best d₁ ⟨hb, hr⟩ => ?_
      obtain ⟨best, plan⟩ := best
      obtain rfl := hb
      dsimp only at hr hs ⊢
      refine (w'.materialise hr d₁).bind fun c₁ d₂ ls ⟨hl, w₁⟩ => ?_
      subst hl
      rw [List.erase_cons_head]
      refine (hi w₁ rest d₂).mono fun q _ ls ⟨hs', hq⟩ => ⟨?_, by rwa [← List.append_assoc]⟩
      have hf : best.number?.toList ++ rest.filterMap Candidate.number? =
          (best :: rest).filterMap Candidate.number? := by
        cases hn : best.number? <;> simp [hn]
      exact (hs'.append_left _).trans (hf ▸ hs)

end Within

end Components

theorem Demand.joins_of_placeJoin {p : JoinPredicate} {d' : Demand} (h : d.placeJoin p = .ok d') :
    d'.joins.Sublist d.joins := by
  obtain rfl := Except.ok.inj ((placeJoin_of_mem (mem_of_placeJoin h)).symm.trans h)
  rw [releaseAll_eq]
  exact List.erase_sublist

theorem Demand.joins_of_placeSelect {p : ValuePredicate} {d' : Demand}
    (h : d.placeSelect p = .ok d') : d'.joins = d.joins := by
  obtain rfl := Except.ok.inj ((placeSelect_of_mem (mem_of_placeSelect h)).symm.trans h)
  rw [releaseAll_eq]

theorem selectJoin_logs (p : JoinPredicate) (q : Plan Relation) (d : Demand) :
    Logs (selectJoin p q) d fun r d' ks => ks = [] ∧ r.joined = q.joined ∧
      d'.joins.Sublist d.joins :=
  Run.logs_ofEstimate_bind fun _ hr => Run.logs_place_bind fun _ hd =>
    Run.logs_pure ⟨rfl, joined_selecting hr, Demand.joins_of_placeJoin hd⟩

theorem selectValue_logs (p : ValuePredicate) (q : Plan Relation) (d : Demand) :
    Logs (selectValue p q) d fun r d' ks => ks = [] ∧ r.joined = q.joined ∧ d'.joins = d.joins :=
  Run.logs_ofEstimate_bind fun _ hr => Run.logs_place_bind fun _ hd =>
    Run.logs_pure ⟨rfl, joined_selecting hr, Demand.joins_of_placeSelect hd⟩

namespace Components

variable {c : Components} {qs : List (Plan Relation)}

theorem Within.selfJoin (w : c.Within js) (leaves : List Handle) (p : JoinPredicate) (d : Demand) :
    Logs (c.selfJoin leaves p) d fun c' d' ks => ks = [] ∧ c'.Within js ∧
      d'.joins.Sublist d.joins := by
  unfold Components.selfJoin
  split
  case isTrue  => exact Run.logs_pure ⟨rfl, w, .refl _⟩
  case isFalse =>
    split
    case h_1 => exact Run.logs_pure ⟨rfl, w, .refl _⟩
    case h_2 =>
      refine (w.plan _).bind_nil fun q _ ⟨hd, hq⟩ => ?_
      subst hd
      refine (selectJoin_logs p q _).bind_nil fun r d' ⟨hr, hs⟩ => ?_
      refine (narrow_logs (hr ▸ hq)).bind_nil fun r' d'' ⟨hd, hr'⟩ => ?_
      subst hd
      exact Run.logs_pure ⟨rfl, w.replace hr' _, hs⟩

theorem Within.selfJoins (w : c.Within js) (leaves : List Handle) (d : Demand) :
    Logs (c.selfJoins leaves) d fun c' d' ks => ks = [] ∧ c'.Within js ∧
      d'.joins.Sublist d.joins :=
  Run.logs_demand_bind <| Run.logs_foldlM
    (fun _ p _ ⟨w, hs⟩ => (Within.selfJoin w leaves p _).mono
      fun _ _ _ ⟨hk, hw, hs'⟩ => ⟨hk, hw, hs'.trans hs⟩) _ c d ⟨w, .refl _⟩

theorem joinCandidates_logs (c : Components) (leaves : List Handle) (ps : List JoinPredicate)
    (d : Demand) : Logs (c.joinCandidates leaves ps) d fun ks _ js => js = [] ∧
      (ks.filterMap Candidate.number?).Sublist (ps.map JoinPredicate.occurrence) := by
  induction ps generalizing d
  case nil          => exact Run.logs_pure ⟨rfl, .refl _⟩
  case cons p ps hi =>
    rw [joinCandidates]
    split
    case h_1 => exact (hi d).mono fun _ _ _ h => ⟨h.left, h.right.cons _⟩
    case h_2 =>
      exact Run.logs_place_bind fun d' _ => (hi d').bind_nil fun _ _ hs =>
        Run.logs_pure ⟨rfl, hs.cons_cons _⟩

end Components

theorem joinOrder_logs (ho : options.reorderJoins = false) (root : Operator)
    {qs : List (Plan Relation)} (hq : ∀ q ∈ qs, q.joined = []) (d : Demand) :
    Logs (joinOrder options root qs) d fun q _ js =>
      js.Sublist (d.joins.map JoinPredicate.occurrence) ∧ q.joined ⊆ js := by
  have w : (Components.ofLeaves qs).Within [] := fun q m =>
    (hq q (List.mem_toArray.mp m)).symm ▸ List.Subset.refl _
  unfold joinOrder
  split
  case isTrue  => exact Run.logs_report_bind <| Run.logs_pure ⟨List.nil_sublist _, nofun⟩
  case isFalse =>
    refine (w.selfJoins _ d).bind_nil fun c d' ⟨w, hs⟩ => Run.logs_demand_bind ?_
    refine (c.joinCandidates_logs _ d'.joins d').bind_nil fun ks d'' hk => ?_
    dsimp only
    split
    case h_1 => exact Run.logs_pure ⟨List.nil_sublist _, nofun⟩
    case h_2 =>
      exact (w.plan _).mono fun _ _ _ ⟨hj, _, hq⟩ => hj ▸ ⟨List.nil_sublist _, hq⟩
    case h_3 =>
      refine (w.reduce ho _ _ _ d'').mono fun q _ js ⟨hj, hq⟩ => ⟨hj.trans ?_, hq⟩
      have hp (paired hs others : List Handle) :
          (Candidate.products paired hs others).filterMap Candidate.number? = [] := by
        refine List.filterMap_eq_nil_iff.mpr fun k hk => ?_
        rw [Candidate.number?, (Candidate.mem_products hk).left]
        rfl
      rw [List.filterMap_append, hp, List.append_nil]
      exact hk.trans (hs.map _)

end QueryPlanner
