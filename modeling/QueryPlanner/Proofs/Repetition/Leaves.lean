import QueryPlanner.Proofs.JoinOrder.ParallelLeaves
import QueryPlanner.Proofs.Repetition.Search

namespace QueryPlanner

open Candidate (predicates)
open Run (Meets)
open Unlimited

variable {leaves : List Handle} {kept : Multiset String} {budget : Multiset Part}
variable {c : Components} {d : Demand} {h k : Handle} {p : JoinPredicate} {n : String}
variable {plan q : Plan Relation} {qs : List (Plan Relation)} {options : Options} {root : Operator}

def Undecided (qs : List (Plan Relation)) (p : JoinPredicate) : Prop :=
  p.isSameName ∨ ∀ q ∈ qs, ¬(q.output.has p.left ∧ q.output.has p.right)

namespace Components

theorem standsFor_ofLeaves : (ofLeaves qs).StandsFor h plan ↔ qs[h]? = some plan := by
  rw [StandsFor, owner_ofLeaves]
  simp [ofLeaves]

theorem provides_ofLeaves :
    (ofLeaves qs).provides n h ↔ ∃ q, qs[h]? = some q ∧ q.output.has n := by
  rw [provides_iff]
  simp only [standsFor_ofLeaves]

theorem apart_ofLeaves (ha : qs.Pairwise Plan.Apart) : (ofLeaves qs).Apart leaves := by
  intro x _ y _ hxy n hn
  rw [owner_ofLeaves, owner_ofLeaves] at hxy
  have ⟨q, hq, hn⟩ := provides_ofLeaves.mp hn
  rw [← Bool.not_eq_true, provides_ofLeaves]
  intro ⟨r, hr, hn'⟩
  have ⟨hx, hq⟩ := List.getElem?_eq_some_iff.mp hq
  have ⟨hy, hr⟩ := List.getElem?_eq_some_iff.mp hr
  have apart : q.Apart r := by
    cases Nat.lt_or_gt_of_ne hxy
    case inl hlt => exact hq ▸ hr ▸ List.pairwise_iff_getElem.mp ha x y hx hy hlt
    case inr hlt => exact (hq ▸ hr ▸ List.pairwise_iff_getElem.mp ha y x hy hx hlt :).symm
  simp [apart n hn] at hn'

theorem not_provides_of_undecided (hp : Undecided qs p) (hs : p.isSameName = false) (h : Handle) :
    ¬((ofLeaves qs).provides p.left h ∧ (ofLeaves qs).provides p.right h) := by
  intro ⟨hl, hr⟩
  have ⟨q, hq, hl⟩ := provides_ofLeaves.mp hl
  have ⟨q', hq', hr⟩ := provides_ofLeaves.mp hr
  obtain rfl := Option.some.inj (hq.symm.trans hq')
  obtain hn | hp := hp
  · simp [hs] at hn
  · exact hp q (List.mem_of_getElem? hq) ⟨hl, hr⟩

theorem selfJoins_of_undecided {F : Failure → Prop} (hd : ∀ p ∈ d.joins, Undecided qs p) :
    Meets F ((ofLeaves qs).selfJoins leaves) d fun c' d' => c' = ofLeaves qs ∧ d' = d := by
  refine Run.meets_demand_bind ?_
  refine (Run.meets_foldlM
    (I := fun rest c' d' => (∀ p ∈ rest, Undecided qs p) ∧ c' = ofLeaves qs ∧ d' = d) ?_ _ _ d
    ⟨by simpa using hd, rfl, rfl⟩).mono fun _ _ h => h.right
  rintro p rest _ _ ⟨hp, rfl, rfl⟩
  have ⟨hp, hrest⟩ := List.forall_mem_cons.mp hp
  unfold selfJoin
  split
  case isTrue      => exact Run.meets_pure ⟨hrest, rfl, rfl⟩
  case isFalse hs =>
    have hf : leaves.find? (fun h => (ofLeaves qs).provides p.left h &&
        (ofLeaves qs).provides p.right h) = none := by
      refine List.find?_eq_none.mpr fun h _ => ?_
      rw [Bool.and_eq_true]
      exact not_provides_of_undecided hp (by simpa using hs) h
    rw [hf]
    exact Run.meets_pure ⟨hrest, rfl, rfl⟩

theorem filter_hasTuples_ofLeaves (ht : ∀ q ∈ qs, 0 < q.tupleCount) :
    (List.range qs.length).filter (ofLeaves qs).hasTuples = List.range qs.length :=
  List.filter_eq_self.mpr fun h hh => by
    have hh := List.mem_range.mp hh
    exact hasTuples_iff.mpr
      ⟨qs[h], standsFor_ofLeaves.mpr (List.getElem?_eq_getElem hh), ht _ (List.getElem_mem hh)⟩

def candidates (c : Components) (leaves : List Handle) (ps : List JoinPredicate) : List Candidate :=
  ps.filterMap (c.candidate? leaves) ++
    Candidate.products ((ps.filterMap (c.candidate? leaves)).flatMap Candidate.sides) leaves leaves

-- On leaves that decide nothing alone, a search opens with the candidates of all the pending predicates
-- that have one.
theorem opening_of_undecided {F : Failure → Prop} (hd : ∀ p ∈ d.joins, Undecided qs p)
    (hl : (List.range qs.length).filter (ofLeaves qs).hasTuples = leaves) :
    Meets F (opening qs) d fun r d' =>
      r = (leaves, ofLeaves qs, (ofLeaves qs).candidates leaves d.joins) ∧
        d' = { d with joins := d.joins.filter fun p => ((ofLeaves qs).pairFor? leaves p).isNone } := by
  refine (selfJoins_of_undecided hd).bind ?_
  rintro _ e ⟨rfl, rfl⟩
  rw [hl]
  refine Run.meets_demand_bind <| (joinCandidates_result e.joins [] rfl (by simp)).bind ?_
  rintro _ _ ⟨rfl, rfl⟩
  exact Run.meets_pure ⟨rfl, rfl⟩

theorem pairFor?_ne (hp : Undecided qs p) (hl : leaves.Nodup)
    (hk : (ofLeaves qs).pairFor? leaves p = some (h, k)) : h ≠ k := by
  refine pairFor?_apart hl hk (or_iff_not_imp_left.mpr fun hs h _ => ?_)
  exact not_provides_of_undecided hp (by simpa using hs) h

theorem collapsed_candidates {ps : List JoinPredicate} (hd : ∀ p ∈ ps, Undecided qs p)
    (hl : leaves.Nodup) :
    ((ofLeaves qs).candidates leaves ps).filterMap (ofLeaves qs).collapsed? = [] := by
  refine List.filterMap_eq_nil_iff.mpr fun k hk => ?_
  cases List.mem_append.mp hk
  case inr hk => simp [collapsed?, (Candidate.mem_products hk).left]
  case inl hk =>
    obtain ⟨p, hp, hk⟩ := List.mem_filterMap.mp hk
    obtain ⟨⟨h, h'⟩, hpair, he⟩ := Option.map_eq_some_iff.mp hk
    simp [collapsed?, owner_ofLeaves, ← he, pairFor?_ne (hd p hp) hl hpair]

theorem Ripens.of_candidates {P : Plan Relation → Prop} {ps : List JoinPredicate}
    (hd : ∀ p ∈ ps, Undecided qs p) (hl : leaves.Nodup)
    (hp : ∀ h plan, (ofLeaves qs).StandsFor h plan → P plan) :
    (ofLeaves qs).Ripens P leaves (sortByText (·.2.text)
      (((ofLeaves qs).candidates leaves ps).filterMap (ofLeaves qs).collapsed?)) := by
  rw [collapsed_candidates hd hl, sortByText_nil]
  exact fun h _ plan hplan _ hq => Plan.stack_nil.mp hq ▸ hp h plan hplan

end Components

open Components

theorem joinOrder_composed (ho : options.reorderJoins)
    (y : Yields False (fun _ => True) false kept budget qs d) (hq : ∀ q ∈ qs, q.Composed)
    (ha : qs.Pairwise Plan.Apart) (hd : ∀ p ∈ d.joins, Undecided qs p) :
    Meets (fun _ => True) (joinOrder options root qs) d fun q _ => q.Composed := by
  have composed (h : Handle) (plan : Plan Relation) (hp : (ofLeaves qs).StandsFor h plan) :
      plan.Composed := hq plan (List.mem_of_getElem? (standsFor_ofLeaves.mp hp))
  by_cases hn : qs = []
  case pos =>
    subst hn
    exact Run.meets_report_bind (Run.meets_pure composed_nothing)
  case neg =>
    obtain ⟨leaves, hl⟩ : ∃ leaves, (List.range qs.length).filter (ofLeaves qs).hasTuples = leaves :=
      ⟨_, rfl⟩
    have r := Ripens.of_candidates hd (hl ▸ List.nodup_range.filter _ : leaves.Nodup) composed
    rw [joinOrder_eq options root hn]
    refine ((opening_meets .free nofun y).and (opening_of_undecided hd hl)).bind ?_
    rintro _ d' ⟨⟨u, -⟩, rfl, -⟩
    dsimp only at u ⊢
    generalize (ofLeaves qs).candidates leaves d.joins = ks at u r
    split
    case h_1 => exact Run.meets_pure composed_nothing
    case h_2 h =>
      obtain ⟨plan, hs, _⟩ := u.standsFor (h := h) (owner_mem_roots (List.mem_singleton_self h))
      rw [show (ofLeaves qs).plan h = pure plan from hs.plan_eq]
      exact Run.meets_pure (composed h plan hs)
    case h_3 => exact reduce_composed ho _ u r (apart_ofLeaves ha)

end QueryPlanner
