import QueryPlanner.Proofs.JoinOrder.Reduce

namespace QueryPlanner

open Predicate (mentions)
open Candidate (predicates)
open Run (Meets)
open Unlimited

variable {exact : Prop} {G : Plan Relation → Prop} {F : Failure → Prop}
variable {leaves : List Handle} {mode : Bool} {kept : Multiset String} {budget : Multiset Part}
variable {c : Components} {ks : List Candidate} {d : Demand} {h k : Handle} {p : JoinPredicate}
variable {plan q : Plan Relation} {qs : List (Plan Relation)}

namespace Components

theorem contents_ofLeaves (qs : List (Plan Relation)) :
    (ofLeaves qs).contents (List.range qs.length) = (qs.map Plan.contents).sum := by
  have hr : (ofLeaves qs).roots (List.range qs.length) = Finset.range qs.length := by
    ext
    simp [roots, owner_ofLeaves]
  rw [contents, hr]
  clear hr
  induction qs
  case nil => rfl
  case cons q qs hi =>
    have hs (i : Handle) : (ofLeaves (q :: qs)).contentsAt (i + 1) = (ofLeaves qs).contentsAt i := by
      simp [contentsAt, ofLeaves]
    have h0 : (ofLeaves (q :: qs)).contentsAt 0 = q.contents := by
      simp [contentsAt, ofLeaves]
    rw [List.length_cons, Finset.sum_range_succ', Finset.sum_congr rfl fun i _ => hs i, hi, h0,
      List.map_cons, List.sum_cons, add_comm]

theorem StandsFor.lt_size (hp : c.StandsFor h plan) : c.owner h < c.plans.size :=
  (Array.getElem?_eq_some_iff.mp hp).1

theorem contents_replace (hp : c.StandsFor h plan) (ho : c.owner h = h) (hh : h ∈ leaves)
    (q : Plan Relation) :
    (c.replace h q).contents leaves + plan.contents = c.contents leaves + q.contents := by
  have hr : h ∈ c.roots leaves := ho ▸ owner_mem_roots hh
  have hlt : h < c.plans.size := ho ▸ hp.lt_size
  have hnew : (c.replace h q).contentsAt h = q.contents := by
    simp [contentsAt, replace, hlt]
  have hold : ∀ x ∈ (c.roots leaves).erase h, (c.replace h q).contentsAt x = c.contentsAt x :=
    fun x hx => by
      have hne : h ≠ x := (Finset.ne_of_mem_erase hx).symm
      simp [contentsAt, replace, hne]
  have hc : c.contentsAt h = plan.contents := by rw [← hp.contentsAt, ho]
  have hsame : (c.replace h q).roots leaves = c.roots leaves := rfl
  rw [contents, contents, hsame, ← Finset.add_sum_erase _ _ hr, ← Finset.add_sum_erase _ _ hr, hnew,
    Finset.sum_congr rfl hold, hc]
  ac_rfl

theorem of_pairFor? (hp : c.pairFor? leaves p = some (h, k)) :
    h ∈ leaves ∧ k ∈ leaves ∧ c.provides p.left h ∧ c.provides p.right k := by
  have mem {n : String} {x : Handle} {xs : List Handle} (he : leaves.filter (c.provides n) = xs)
      (hx : x ∈ xs) : x ∈ leaves ∧ c.provides n x := List.mem_filter.mp (he ▸ hx)
  unfold pairFor? at hp
  dsimp only at hp
  split at hp
  case isTrue hn =>
    have hn : p.left = p.right := by simpa [JoinPredicate.isSameName] using hn
    split at hp
    case h_2 => cases hp
    case h_1 he =>
      cases hp
      have ⟨hl, hl'⟩ := mem he (List.mem_cons_self ..)
      have ⟨hr, hr'⟩ := mem he (List.mem_cons_of_mem _ (List.mem_cons_self ..))
      exact ⟨hl, hr, hl', hn ▸ hr'⟩
  case isFalse =>
    split at hp
    case h_2 => cases hp
    case h_1 he he' =>
      cases hp
      have ⟨hl, hl'⟩ := mem he (List.mem_cons_self ..)
      have ⟨hr, hr'⟩ := mem he' (List.mem_cons_self ..)
      exact ⟨hl, hr, hl', hr'⟩

def Unpaired (c : Components) (leaves : List Handle) (p : JoinPredicate) : Prop :=
  if p.isSameName then
    (leaves.filter (c.provides p.left)).length < 2
  else
    (∀ h ∈ leaves, c.provides p.left h = false) ∨ ∀ h ∈ leaves, c.provides p.right h = false

instance (c : Components) (leaves : List Handle) (p : JoinPredicate) :
    Decidable (c.Unpaired leaves p) :=
  inferInstanceAs (Decidable (ite ..))

theorem pairFor?_eq_none_iff : c.pairFor? leaves p = none ↔ c.Unpaired leaves p := by
  have none {n} : (∀ h ∈ leaves, c.provides n h = false) ↔ leaves.filter (c.provides n) = [] := by
    simp [List.filter_eq_nil_iff]
  simp only [pairFor?, Unpaired, none]
  generalize leaves.filter (c.provides p.left) = xs
  generalize leaves.filter (c.provides p.right) = ys
  split
  case isTrue  => match xs with | [] | [_] | _ :: _ :: _ => simp
  case isFalse => cases xs <;> cases ys <;> simp

theorem isNone_pairFor? : (c.pairFor? leaves p).isNone = decide (c.Unpaired leaves p) := by
  rw [Bool.eq_iff_iff, Option.isNone_iff_eq_none, pairFor?_eq_none_iff, decide_eq_true_iff]

def LeavesOpen (c : Components) (leaves : List Handle) (p : JoinPredicate) : Prop :=
  p.isSameName ∨ ∀ h ∈ leaves, ¬(c.provides p.left h ∧ c.provides p.right h)

theorem pairFor?_apart (hl : leaves.Nodup) (hp : c.pairFor? leaves p = some (h, k))
    (hd : c.LeavesOpen leaves p) : h ≠ k := by
  obtain ⟨hh, _, hleft, hright⟩ := of_pairFor? hp
  rintro rfl
  by_cases hs : p.isSameName
  case neg => exact hd.resolve_left hs h hh ⟨hleft, hright⟩
  case pos =>
    have hn : (leaves.filter (c.provides p.left)).Nodup := hl.filter _
    simp only [pairFor?, hs, if_true] at hp
    split at hp
    case h_1 he =>
      cases hp
      rw [he] at hn
      simp at hn
    case h_2 => cases hp

end Components

namespace Underway

open Components

theorem ofLeaves (y : Yields exact G mode kept budget qs d) :
    Underway exact G (List.range qs.length) mode kept budget (ofLeaves qs) [] d where
  formed   := wellFormed_ofLeaves qs
  good     := fun plan hp => y.good plan (by simpa [Components.ofLeaves] using hp)
  inside   := fun h hh => by simpa [Components.ofLeaves] using hh
  sides    := by simp
  provided := by simp
  covers   := by simpa [predicates] using y.covers
  retained := by simpa [predicates, contents_ofLeaves] using y.retained
  narrows  := y.narrows

theorem replace {d' : Demand} (u : Underway exact G leaves mode kept budget c [] d)
    (ho : ∀ x, c.owner x = x) (hp : c.StandsFor h plan) (hh : h ∈ leaves)
    (ha : Yields exact G mode kept (plan.contents + d.pending.map .inr) [q] d') :
    Underway exact G leaves mode kept budget (c.replace h q) [] d' where
  formed := {
    acyclic := u.formed.acyclic
    inside  := fun x hx => by
      have hs : (c.replace h q).plans.size = c.plans.size := Array.size_setIfInBounds ..
      rw [hs] at hx ⊢
      exact u.formed.inside x hx
    outside := fun x _ => ho x
  }
  good plan hplan := by
    cases Array.mem_or_eq_of_mem_setIfInBounds hplan
    case inl hm => exact u.good plan hm
    case inr he => exact he ▸ ha.good q (List.mem_singleton_self q)
  inside x hx := by
    have hs : (c.replace h q).plans.size = c.plans.size := Array.size_setIfInBounds ..
    exact hs ▸ u.inside x hx
  sides    := by simp
  provided := by simp
  covers   := by simpa [predicates] using ha.covers
  retained := by
    refine u.retained.trans (.cancel (u := plan.contents) ?_)
    have hsum := contents_replace hp (ho h) hh q
    have hr : Retains exact (plan.contents + d.pending.map .inr) (q.contents + d'.pending.map .inr) := by
      simpa using ha.retained
    refine (Retains.of_eq ?_).trans ((Retains.refl (c.contents leaves)).add hr) |>.trans (.of_eq ?_)
    · simp [predicates]; ac_rfl
    · rw [← add_assoc, ← hsum]; simp [predicates]; ac_rfl
  narrows  := ha.narrows

theorem filter_hasTuples (u : Underway exact G leaves mode kept budget c ks d)
    (I : PlanInvariant exact G F) (hx : exact) : leaves.filter c.hasTuples = leaves :=
  List.filter_eq_self.mpr fun h hh => by
    have ⟨plan, hp, hg⟩ := u.standsFor (owner_mem_roots hh)
    exact hasTuples_iff.mpr ⟨plan, hp, (I.present hx hg).left⟩

theorem filter (u : Underway exact G leaves mode kept budget c [] d) (I : PlanInvariant exact G F) :
    Underway exact G (leaves.filter c.hasTuples) mode kept budget c [] d :=
  { u with
    inside   := fun h hh => u.inside h (List.mem_filter.mp hh).left
    sides    := by simp
    retained := by
      refine u.retained.trans (.add_right (.add_right (.of_le ?_ fun hx => ?_) _) _)
      · have : c.roots (leaves.filter c.hasTuples) ⊆ c.roots leaves := fun x hx => by
          have ⟨h, hh, he⟩ := List.mem_map.mp (List.mem_toFinset.mp hx)
          exact he ▸ owner_mem_roots (List.mem_filter.mp hh).left
        rw [contents, contents, ← Finset.sum_sdiff this]
        exact Multiset.le_add_left ..
      · rw [u.filter_hasTuples I hx] }

theorem claim (u : Underway exact G leaves mode kept budget c ks d)
    (hp : c.pairFor? leaves p = some (h, k)) (hj : p ∈ d.joins) :
    Underway exact G leaves mode kept budget c
      ({ left := h, right := k, predicate := some p } :: ks) { d with joins := d.joins.erase p } := by
  have ⟨hl, hr, hl', hr'⟩ := of_pairFor? hp
  have hd := Demand.pending_erase_join hj
  have hk : predicates ({ left := h, right := k, predicate := some p } :: ks) =
    .join p ::ₘ predicates ks := by simp [predicates]
  refine { u with sides := ?_, provided := ?_, covers := ?_, retained := ?_ }
  · simp only [List.forall_mem_cons]
    exact ⟨by simpa [Candidate.sides] using ⟨owner_mem_roots hl, owner_mem_roots hr⟩, u.sides⟩
  · simp only [List.forall_mem_cons]
    exact ⟨by simpa using ⟨hl', hr'⟩, u.provided⟩
  · have := u.covers.take (p := .join p) hd rfl
    rwa [hk, Predicate.mentions_cons, add_left_comm]
  · refine u.retained.trans (.of_eq ?_)
    rw [hk, hd]
    simp only [Multiset.map_cons, Multiset.add_cons, Multiset.cons_add]

end Underway

namespace Components

-- Self-joins are looked for while no component was combined yet. The predicates that are left to look
-- at are pending.
structure SelfJoining (exact : Prop) (G : Plan Relation → Prop) (leaves : List Handle) (mode : Bool)
    (kept : Multiset String) (budget : Multiset Part) (rest : List JoinPredicate) (c : Components)
    (d : Demand) : Prop where
  underway : Underway exact G leaves mode kept budget c [] d
  apart    : ∀ x, c.owner x = x
  pending  : (rest.map Predicate.join : List Predicate) ≤ d.pending

namespace SelfJoining

variable {rest : List JoinPredicate}

theorem mem (s : SelfJoining exact G leaves mode kept budget (p :: rest) c d) : p ∈ d.joins :=
  Demand.mem_pending_join.mp (Multiset.mem_of_le s.pending (List.mem_cons_self ..))

theorem covers (s : SelfJoining exact G leaves mode kept budget rest c d) : d.Covers kept :=
  s.underway.covers.mono (Multiset.le_add_right ..)

theorem skip (s : SelfJoining exact G leaves mode kept budget (p :: rest) c d) :
    SelfJoining exact G leaves mode kept budget rest c d :=
  { s with pending := (Multiset.coe_le.mpr (List.sublist_cons_self ..).subperm).trans s.pending }

theorem found (s : SelfJoining exact G leaves mode kept budget rest c d)
    (hf : leaves.find? (fun h => c.provides p.left h && c.provides p.right h) = some h) :
    h ∈ leaves ∧ ∃ plan, c.StandsFor h plan ∧ G plan ∧ ∀ n ∈ p.attributes, plan.output.has n := by
  have hh : h ∈ leaves := List.mem_of_find?_eq_some hf
  have hprov := List.find?_some hf
  rw [Bool.and_eq_true] at hprov
  have ⟨plan, hs, hg⟩ := s.underway.standsFor (owner_mem_roots hh)
  refine ⟨hh, plan, hs, hg, ?_⟩
  simp only [JoinPredicate.attributes, List.mem_pair]
  rintro n (rfl | rfl)
  · exact hs.has hprov.left
  · exact hs.has hprov.right

end SelfJoining

theorem selfJoin_meets {rest : List JoinPredicate} (I : PlanInvariant exact G F)
    (hm : exact → mode = false)
    (s : SelfJoining exact G leaves mode kept budget (p :: rest) c d) :
    Meets F (c.selfJoin leaves p) d fun c' d' =>
      SelfJoining exact G leaves mode kept budget rest c' d' := by
  unfold selfJoin
  split
  case isTrue => exact Run.meets_pure s.skip
  case isFalse =>
    split
    case h_1 => exact Run.meets_pure s.skip
    case h_2 h hf =>
      have ⟨hh, plan, hs, hg, hn⟩ := s.found hf
      have y : Yields exact G mode kept (plan.contents + d.pending.map .inr) [plan] d := {
        good     := by simpa using hg
        covers   := s.covers
        retained := .of_eq (by simp)
        narrows  := s.underway.narrows
      }
      rw [hs.plan_eq, pure_bind]
      refine (selectJoin_meets I hg hn s.covers s.mem).bind fun q d' ha => ?_
      refine ((narrow_yields I hm (ha.yields y)).and ((narrow_meets q d').mono
        fun _ _ h => h.left)).bind fun q' e ⟨y', he⟩ => Run.meets_pure ?_
      refine ⟨s.underway.replace s.apart hs hh y', s.apart, ?_⟩
      exact he ▸ (Multiset.cons_le_cons_iff _).mp (ha.pending ▸ s.pending)

theorem selfJoins_meets (I : PlanInvariant exact G F) (hm : exact → mode = false)
    (u : Underway exact G leaves mode kept budget c [] d) (ho : ∀ x, c.owner x = x) :
    Meets F (c.selfJoins leaves) d fun c' d' =>
      Underway exact G leaves mode kept budget c' [] d' ∧ ∀ x, c'.owner x = x := by
  refine Run.meets_demand_bind ?_
  refine (Run.meets_foldlM (fun _ _ _ _ => selfJoin_meets I hm) _ c d
    ⟨u, ho, Demand.sortByText_joins_le d⟩).mono fun c' d' s => ⟨s.underway, s.apart⟩

theorem joinCandidates_meets (ps : List JoinPredicate)
    (u : Underway exact G leaves mode kept budget c ks d) (hp : ps.Subperm d.joins) :
    Meets F (c.joinCandidates leaves ps) d fun ls d' =>
      Underway exact G leaves mode kept budget c (ls ++ ks) d' := by
  induction ps generalizing ks d
  case nil => exact Run.meets_pure u
  case cons p ps hi =>
    rw [joinCandidates]
    split
    case h_1 => exact hi u ((List.sublist_cons_self p ps).subperm.trans hp)
    case h_2 h k hk =>
      have hj : p ∈ d.joins := hp.subset (List.mem_cons_self ..)
      have hp' := hp.erase p
      rw [List.erase_cons_head] at hp'
      refine Run.meets_place_bind (Demand.claimJoin_of_mem hj) ?_
      refine (hi (u.claim hk hj) hp').bind fun ls d' u' => Run.meets_pure ?_
      exact u'.perm List.perm_middle

end Components

open Components

-- What a join search starts with: the handles of its leaves, its components and its candidates.
def opening (qs : List (Plan Relation)) : Run (List Handle × Components × List Candidate) := do
  let handles := List.range qs.length
  let c ← (Components.ofLeaves qs).selfJoins handles
  let leaves := handles.filter c.hasTuples
  let joins ← c.joinCandidates leaves (← Run.demand).joins
  return (leaves, c, joins ++ Candidate.products (joins.flatMap Candidate.sides) leaves leaves)

theorem joinOrder_eq (options : Options) (root : Operator) {qs : List (Plan Relation)} (hq : qs ≠ []) :
    joinOrder options root qs = opening qs >>= fun r =>
      match r.1, r.2.2 with
      | [], _   => pure .nothing
      | [h], [] => r.2.1.plan h
      | _, ks   => r.2.1.reduce options r.1 r.1.length ks := by
  have hq : qs.isEmpty = false := by simpa using hq
  simp only [joinOrder, opening, hq, bind_assoc, pure_bind]
  rfl

theorem opening_meets (I : PlanInvariant exact G F) (hm : exact → mode = false)
    (y : Yields exact G mode kept budget qs d) :
    Meets F (opening qs) d fun r d' => Underway exact G r.1 mode kept budget r.2.1 r.2.2 d' ∧
      (exact → qs ≠ [] → r.1 ≠ []) := by
  refine (selfJoins_meets I hm (.ofLeaves y) (owner_ofLeaves qs)).bind fun c d' ⟨u, _⟩ => ?_
  refine Run.meets_demand_bind ?_
  refine (joinCandidates_meets _ (u.filter I) (List.Subperm.refl _)).bind fun js d'' u' => ?_
  rw [List.append_nil] at u'
  refine Run.meets_pure ⟨?_, fun hx hn => ?_⟩
  · exact u'.products (fun k hk => (Candidate.mem_products hk).left) fun k hk h hh =>
      owner_mem_roots (Candidate.sides_of_mem_products hk h hh)
  · dsimp only
    rw [u.filter_hasTuples I hx]
    simpa using hn

theorem joinOrder_meets {options : Options} {root : Operator} (I : PlanInvariant exact G F)
    (hm : exact → mode = false) (hx : exact → qs ≠ [])
    (y : Yields exact G mode kept budget qs d) :
    Meets F (joinOrder options root qs) d fun q d' => Yields exact G mode kept budget [q] d' := by
  have empty {c ks d'} {ls : List Handle} (u : Underway exact G ls mode kept budget c ks d')
      (hx : ¬exact) : Yields exact G mode kept budget [.nothing] d' :=
    { good     := by simpa using I.nothing hx
      covers   := u.covers.mono (Multiset.le_add_right ..)
      retained := by
        refine u.retained.trans (.add_right (.of_le ?_ (absurd · hx)) _)
        simp only [List.map_cons, Plan.contents_nothing, List.map_nil, List.sum_cons, List.sum_nil]
        exact Multiset.zero_le _
      narrows  := u.narrows }
  by_cases hn : qs = []
  case pos =>
    subst hn
    exact Run.meets_report_bind (Run.meets_pure (empty (.ofLeaves y) fun h => hx h rfl))
  case neg =>
    rw [joinOrder_eq options root hn]
    refine (opening_meets I hm y).bind ?_
    rintro ⟨leaves, c, ks⟩ d' ⟨u, hl⟩
    dsimp only at u hl ⊢
    split
    case h_1 => exact Run.meets_pure (empty u fun h => hl h hn rfl)
    case h_2 h =>
      have ⟨plan, hs, hg⟩ := u.standsFor (h := h) (owner_mem_roots (List.mem_singleton_self h))
      have hc : c.contents [h] = plan.contents := by
        simp [contents, roots, hs.contentsAt]
      rw [show c.plan h = pure plan from hs.plan_eq]
      exact Run.meets_pure {
        good     := by simpa using hg
        covers   := u.covers.mono (Multiset.le_add_right ..)
        retained := by simpa [predicates, hc] using u.retained
        narrows  := u.narrows
      }
    case h_3 hl' _ => exact reduce_meets I hm hl' _ card_roots_le u

end QueryPlanner
