import QueryPlanner.Optimise.Reshape
import QueryPlanner.Proofs.JoinOrder.Leaves

namespace QueryPlanner

open Run (Meets)
open Unlimited

variable {exact : Prop} {G : Plan Relation → Prop} {F : Failure → Prop} {mode : Bool}
variable {kept : Multiset String} {budget s t : Multiset Part} {qs rs : List (Plan Relation)}
variable {plan q : Plan Relation} {d d' d'' : Demand} {options : Options}

theorem Yields.append (y : Yields exact G mode kept (s + d.pending.map .inr) qs d')
    (y' : Yields exact G mode kept (t + d'.pending.map .inr) rs d'') :
    Yields exact G mode kept (s + t + d.pending.map .inr) (qs ++ rs) d'' where
  good q hq := (List.mem_append.mp hq).elim (y.good q) (y'.good q)
  covers    := y'.covers
  retained  := by
    have h  := (Retains.refl t).add y.retained
    have h' := (Retains.refl (qs.map Plan.contents).sum).add y'.retained
    rw [List.map_append, List.sum_append]
    refine (Retains.of_eq ?_).trans (h.trans ((Retains.of_eq ?_).trans h')) |>.trans (.of_eq ?_)
    all_goals ac_rfl
  narrows   := y'.narrows

structure Placing (exact : Prop) (G : Plan Relation → Prop) (mode : Bool) (kept : Multiset String)
    (budget : Multiset Part) (r : NamedRelation) (rest : List Predicate) (q : Plan Relation)
    (d : Demand) : Prop where
  yields  : Yields exact G mode kept budget [q] d
  names   : q.output.names = r.statistics.names
  pending : rest ≤ d.pending
  present : ∀ p ∈ rest, ∀ n ∈ p.attributes, r.has n

namespace Placing

variable {r : NamedRelation} {p : Predicate} {rest : List Predicate}

theorem good (s : Placing exact G mode kept budget r rest q d) : G q :=
  s.yields.good q (List.mem_singleton_self q)

theorem mem (s : Placing exact G mode kept budget r (p :: rest) q d) : p ∈ d.pending :=
  Multiset.mem_of_le s.pending (List.mem_cons_self ..)

theorem has (s : Placing exact G mode kept budget r (p :: rest) q d) :
    ∀ n ∈ p.attributes, q.output.has n := fun n hn =>
  (Relation.has_eq_of_names s.names n).trans (s.present p (List.mem_cons_self ..) n hn)

theorem isRequired (s : Placing exact G mode kept budget r (p :: rest) q d) :
    ∀ n ∈ p.attributes, d.required.isRequired n :=
  s.yields.covers.isRequired_of_pending s.mem

theorem step (s : Placing exact G mode kept budget r (p :: rest) plan d)
    (ha : Applied G kept p plan d q d') : Placing exact G mode kept budget r rest q d' where
  yields  := ha.yields s.yields
  names   := ha.names.trans s.names
  pending := (Multiset.cons_le_cons_iff p).mp (ha.pending ▸ s.pending)
  present := fun p hp => s.present p (List.mem_cons_of_mem _ hp)

theorem selectValue_meets {p : ValuePredicate} (I : PlanInvariant exact G F)
    (s : Placing exact G mode kept budget r (.value p :: rest) q d) :
    Meets F (selectValue p q) d fun q' d' => Placing exact G mode kept budget r rest q' d' :=
  (QueryPlanner.selectValue_meets I s.good (s.has _ (List.mem_singleton_self _)) s.yields.covers
    (Demand.mem_pending_value.mp s.mem)).mono fun _ _ => s.step

theorem selectJoin_meets {p : JoinPredicate} (I : PlanInvariant exact G F)
    (s : Placing exact G mode kept budget r (.join p :: rest) q d) :
    Meets F (selectJoin p q) d fun q' d' => Placing exact G mode kept budget r rest q' d' :=
  (QueryPlanner.selectJoin_meets I s.good s.has s.yields.covers
    (Demand.mem_pending_join.mp s.mem)).mono fun _ _ => s.step

end Placing

theorem Yields.placingSelects {r : NamedRelation} (y : Yields exact G mode kept budget [q] d)
    (hq : q.output.names = r.statistics.names) :
    Placing exact G mode kept budget r
      (((sortByText ValuePredicate.text d.selects).filter (r.has ·.name)).map .value) q d where
  yields  := y
  names   := hq
  pending := (Multiset.coe_le.mpr (List.filter_sublist.map _).subperm).trans d.sortByText_selects_le
  present := by
    simp only [List.mem_map, List.mem_filter]
    rintro _ ⟨p, hp, rfl⟩ n hn
    exact List.mem_singleton.mp hn ▸ hp.right

theorem Yields.placingJoins {r : NamedRelation} (y : Yields exact G mode kept budget [q] d)
    (hq : q.output.names = r.statistics.names) :
    Placing exact G mode kept budget r
      (((sortByText JoinPredicate.text d.joins).filter fun p =>
        !p.isSameName && r.has p.left && r.has p.right).map .join) q d where
  yields  := y
  names   := hq
  pending := (Multiset.coe_le.mpr (List.filter_sublist.map _).subperm).trans d.sortByText_joins_le
  present := by
    simp only [List.mem_map, List.mem_filter, Bool.and_eq_true]
    rintro _ ⟨p, ⟨_, ⟨_, hl⟩, hr⟩, rfl⟩ n hn
    cases List.mem_pair.mp hn
    case inl he => exact he ▸ hl
    case inr he => exact he ▸ hr

theorem placeScan_meets {r : NamedRelation} (I : PlanInvariant exact G F)
    (hm : exact → mode = false) (y : Yields exact G mode kept budget [.scanning r] d) :
    Meets F (placeScan r) d fun q d' => Yields exact G mode kept budget [q] d' := by
  refine Run.meets_demand_bind ?_
  refine (Run.meets_foldlM (I := fun rest => Placing exact G mode kept budget r (rest.map .value))
    (fun _ _ _ _ s => s.selectValue_meets I) _ _ _ (y.placingSelects rfl)).bind fun q d' s => ?_
  refine Run.meets_demand_bind ?_
  refine (Run.meets_foldlM (I := fun rest => Placing exact G mode kept budget r (rest.map .join))
    (fun _ _ _ _ s => s.selectJoin_meets I) _ _ _ (s.yields.placingJoins s.names)).bind ?_
  exact fun q d' s => narrow_yields I hm s.yields

theorem scanning_yields {r : NamedRelation} (hg : G (.scanning r)) (hc : d.Covers kept)
    (hn : d.narrowing = mode) :
    Yields exact G mode kept ((Plan.scanning r).contents + d.pending.map .inr) [.scanning r] d where
  good     := by simpa using hg
  covers   := hc
  retained := .of_eq (by simp)
  narrows  := hn

theorem contents_ensureProjection (names : List String) (plan : Plan Relation) :
    (ensureProjection names plan).contents = plan.contents := by
  unfold ensureProjection
  split
  case h_1 => split <;> rfl
  case h_2 => rfl

theorem PlanInvariant.ensureProjection (I : PlanInvariant exact G F) (hx : ¬exact) (hg : G plan)
    (names : List String) : G (ensureProjection names plan) := by
  unfold QueryPlanner.ensureProjection
  split
  case h_1 =>
    split
    · exact hg
    · exact I.project hx names (I.inner hg)
  case h_2 => exact I.project hx names hg

theorem underProjection_meets {names : List String} {input : Run (Plan Relation)}
    (I : PlanInvariant exact G F) (hm : exact → options.pushProjections = false)
    (hi : Meets F input { d.requireAll names with narrowing := options.pushProjections }
      fun q d' => Yields exact G options.pushProjections (names + kept) budget [q] d') :
    Meets F (underProjection options names input) d fun q d' =>
      ∃ q', q = ensureProjection names q' ∧ Yields exact G d.narrowing kept budget [q'] d' := by
  refine Run.meets_demand_bind <| Run.meets_modify_bind <| hi.bind fun q d' y => ?_
  refine (narrow_yields I hm y).bind fun q d' y => Run.meets_modify_bind <| Run.meets_pure ?_
  refine ⟨q, rfl, y.good, ?_, ?_, ?_⟩
  · exact Demand.Covers.releaseAll (d := { d' with narrowing := d.narrowing }) names y.covers
  · rw [Demand.pending_releaseAll]
    exact y.retained
  · rw [Demand.narrowing_releaseAll]

namespace Reshaping

theorem keepLeaf_meets (I : PlanInvariant exact G F) (y : Yields exact G mode kept budget [q] d) :
    Meets F (keepLeaf q) d fun qs d' =>
      Yields exact G mode kept budget qs d' ∧ (exact → qs ≠ []) := by
  unfold keepLeaf
  split
  case isFalse => exact Run.meets_pure ⟨y, fun _ => List.cons_ne_nil _ _⟩
  case isTrue hq =>
    have hx : ¬exact := fun hx => by
      have := (I.present hx (y.good q (List.mem_singleton_self q))).left
      omega
    refine Run.meets_report_bind <| Run.meets_pure ⟨{ y with good := by simp, retained := ?_ }, ?_⟩
    · refine y.retained.trans (.add_right (.of_le ?_ (absurd · hx)) _)
      exact Multiset.zero_le _
    · exact (absurd · hx)

-- A reshaping takes up the budget both as a plan of its own and as a part of a chain.
structure Takes (exact : Prop) (G : Plan Relation → Prop) (F : Failure → Prop) (mode : Bool)
    (kept : Multiset String) (budget : Multiset Part) (x : Reshaping) (d : Demand) : Prop where
  plan   : Meets F x.plan d fun q d' => Yields exact G mode kept budget [q] d'
  leaves : Meets F x.leaves d fun qs d' =>
    Yields exact G mode kept budget qs d' ∧ (exact → qs ≠ [])

theorem leaf_takes {x : Run (Plan Relation)} (I : PlanInvariant exact G F)
    (h : Meets F x d fun q d' => Yields exact G mode kept budget [q] d') :
    (leaf x).Takes exact G F mode kept budget d where
  plan   := h
  leaves := h.bind fun _ _ => keepLeaf_meets I

theorem chain_meets {l r : Reshaping}
    (hl : l.Takes exact G F mode kept (s + d.pending.map .inr) d)
    (hr : ∀ d', d'.Covers kept → d'.narrowing = mode →
      r.Takes exact G F mode kept (t + d'.pending.map .inr) d') :
    Meets F (chain l r) d fun qs d' =>
      Yields exact G mode kept (s + t + d.pending.map .inr) qs d' ∧ (exact → qs ≠ []) :=
  hl.leaves.bind fun _ d' ⟨y, hq⟩ => (hr d' y.covers y.narrows).leaves.bind fun _ _ ⟨y', _⟩ =>
    Run.meets_pure ⟨y.append y', fun hx => List.append_ne_nil_of_left_ne_nil (hq hx) _⟩

theorem defer_yields {p : Predicate}
    (y : Yields exact G mode kept (s + (d.defer p).pending.map .inr) qs d') :
    Yields exact G mode kept (.inr p ::ₘ s + d.pending.map .inr) qs d' := by
  rw [Demand.pending_defer, Multiset.map_cons, Multiset.add_cons] at y
  rwa [Multiset.cons_add]

theorem ofPlan_takes {ν : Type} (I : PlanInvariant exact G F) (plan : Plan ν)
    (hs : ∀ r ∈ plan.scans, G (.scanning r)) (hf : exact → plan.ProjectionFree)
    (hm : exact → mode = false) (hc : d.Covers kept) (hn : d.narrowing = mode) :
    (ofPlan options plan).Takes exact G F mode kept (plan.contents + d.pending.map .inr) d := by
  induction plan generalizing d mode kept
  case scan _ r =>
    exact leaf_takes I <| placeScan_meets I hm (scanning_yields (hs r (List.mem_singleton_self r)) hc hn)
  case select _ p i hi =>
    have hi := hi hs hf hm (hc.defer p) ((d.defer_narrowing p).trans hn)
    exact leaf_takes I <| Run.meets_modify_bind <| hi.plan.mono fun _ _ => defer_yields
  case project _ names i hi =>
    -- In the exact case there is no projection.
    have hx : ¬exact := hf
    have hm' : exact → options.pushProjections = false := (absurd · hx)
    have hd : ({ d.requireAll names with narrowing := options.pushProjections } : Demand).Covers
      (names + kept) := hc.requireAll names
    have hi := (hi hs (absurd · hx) hm' hd rfl).plan
    have hp : Demand.pending { d.requireAll names with narrowing := options.pushProjections } =
      d.pending := d.pending_requireAll names
    rw [hp] at hi
    refine leaf_takes I <| (underProjection_meets I hm' hi).mono ?_
    rintro q d' ⟨q', he, y⟩
    subst he
    have hc := contents_ensureProjection names q'
    exact {
      good     := by simpa using I.ensureProjection hx (y.good q' (List.mem_singleton_self q')) names
      covers   := y.covers
      retained := by simpa [hc, Plan.contents] using y.retained
      narrows  := y.narrows.trans hn
    }
  case product _ l r hl hr =>
    have hl := hl (fun x hx => hs x (List.mem_append_left _ hx)) (fun hx => (hf hx).left) hm hc hn
    have hr (d' : Demand) (hc' : d'.Covers kept) (hn' : d'.narrowing = mode) :=
      hr (fun x hx => hs x (List.mem_append_right _ hx)) (fun hx => (hf hx).right) hm hc' hn'
    exact {
      plan   := (chain_meets hl hr).bind fun _ _ h => joinOrder_meets I hm h.right h.left
      leaves := chain_meets hl hr
    }
  case join _ p l r hl hr =>
    -- The predicate is put off before the inputs are reshaped, so they keep its names, too.
    have hc := hc.defer (.join p)
    have hn := (d.defer_narrowing (.join p)).trans hn
    have hl := hl (fun x hx => hs x (List.mem_append_left _ hx)) (fun hx => (hf hx).left) hm hc hn
    have hr (d' : Demand) (hc' : d'.Covers kept) (hn' : d'.narrowing = mode) :=
      hr (fun x hx => hs x (List.mem_append_right _ hx)) (fun hx => (hf hx).right) hm hc' hn'
    refine leaf_takes I <| Run.meets_modify_bind <| (chain_meets hl hr).bind ?_
    rintro _ _ ⟨y, hq⟩
    exact (joinOrder_meets I hm hq y).mono fun _ _ => defer_yields

-- What every step of a reshaping keeps up: `J` of the demand, and `P` of the plans.
structure Steps (options : Options) (G : Plan Relation → Prop) (F : Failure → Prop)
    (J : Multiset String → Demand → Prop) (P : Plan Relation → Prop) : Prop where
  defer   : ∀ {kept d} p, J kept d → J kept (d.defer p)
  scan    : ∀ {kept d r}, G (.scanning r) → J kept d →
    Meets F (placeScan r) d fun q d' => P q ∧ J kept d'
  enter   : ∀ {kept d} (names : List String), J kept d →
    J (names + kept) { d.requireAll names with narrowing := options.pushProjections }
  project : ∀ {kept d input} {names : List String},
    Meets F input { d.requireAll names with narrowing := options.pushProjections }
      (fun q d' => P q ∧ J (names + kept) d') →
    Meets F (underProjection options names input) d fun q d' => P q ∧ J kept d'
  search  : ∀ {mode kept budget qs d root}, Yields False G mode kept budget qs d → J kept d →
    (∀ q ∈ qs, P q) → Meets F (joinOrder options root qs) d fun q d' => P q ∧ J kept d'

section Keeps

variable {ν : Type} {J : Multiset String → Demand → Prop} {P : Plan Relation → Prop}

theorem chain_keeps {l r : Reshaping} (tl : l.Takes False G F mode kept (s + d.pending.map .inr) d)
    (tr : ∀ d', d'.Covers kept → d'.narrowing = mode →
      r.Takes False G F mode kept (t + d'.pending.map .inr) d')
    (hl : Meets F l.leaves d fun qs d' => (∀ q ∈ qs, P q) ∧ J kept d')
    (hr : ∀ d', d'.Covers kept → J kept d' →
      Meets F r.leaves d' fun qs d' => (∀ q ∈ qs, P q) ∧ J kept d') :
    Meets F (chain l r) d fun qs d' =>
      Yields False G mode kept (s + t + d.pending.map .inr) qs d' ∧ (∀ q ∈ qs, P q) ∧ J kept d' := by
  have keeps : Meets F (chain l r) d fun qs d' => (∀ q ∈ qs, P q) ∧ J kept d' :=
    (hl.and tl.leaves).bind fun _ d' h => (hr d' h.right.left.covers h.left.right).bind fun _ _ h' =>
      Run.meets_pure ⟨List.forall_mem_append.mpr ⟨h.left.left, h'.left⟩, h'.right⟩
  exact ((chain_meets tl tr).and keeps).mono fun _ _ h => ⟨h.left.left, h.right⟩

theorem leaf_keeps {x : Run (Plan Relation)} (h : Meets F x d fun q d' => P q ∧ J kept d') :
    Meets F (leaf x).plan d (fun q d' => P q ∧ J kept d') ∧
      Meets F (leaf x).leaves d fun qs d' => (∀ q ∈ qs, P q) ∧ J kept d' := by
  refine ⟨h, h.bind fun q d' h => ?_⟩
  unfold keepLeaf
  split
  case isTrue  => exact Run.meets_report_bind (Run.meets_pure ⟨by simp, h.right⟩)
  case isFalse => exact Run.meets_pure ⟨by simpa using h.left, h.right⟩

theorem ofPlan_keeps (S : Steps options G F J P) (I : PlanInvariant False G F) (plan : Plan ν)
    (hs : ∀ r ∈ plan.scans, G (.scanning r)) (hc : d.Covers kept) (hj : J kept d) :
    Meets F (ofPlan options plan).plan d (fun q d' => P q ∧ J kept d') ∧
      Meets F (ofPlan options plan).leaves d fun qs d' => (∀ q ∈ qs, P q) ∧ J kept d' := by
  have takes (plan : Plan ν) (hs : ∀ r ∈ plan.scans, G (.scanning r)) {mode kept d}
      (hc : Demand.Covers d kept) (hn : d.narrowing = mode) :
      (ofPlan options plan).Takes False G F mode kept (plan.contents + d.pending.map .inr) d :=
    ofPlan_takes I plan hs False.elim False.elim hc hn
  induction plan generalizing d kept
  case scan r        => exact leaf_keeps (S.scan (hs r (List.mem_singleton_self r)) hj)
  case select p _ hi =>
    exact leaf_keeps (Run.meets_modify_bind (hi hs (hc.defer p) (S.defer p hj)).left)
  case project names _ hi =>
    have hc : Demand.Covers { d.requireAll names with narrowing := options.pushProjections }
      (names + kept) := hc.requireAll names
    exact leaf_keeps (S.project (hi hs hc (S.enter names hj)).left)
  case product n l r hl hr =>
    obtain ⟨hsl, hsr⟩ := List.forall_mem_append.mp hs
    have chained := chain_keeps (takes l hsl hc rfl) (fun _ hc => takes r hsr hc) (hl hsl hc hj).right
      fun _ hc hj => (hr hsr hc hj).right
    exact ⟨chained.bind fun _ _ h => S.search h.left h.right.right h.right.left,
      chained.mono fun _ _ h => h.right⟩
  case join n p l r hl hr =>
    obtain ⟨hsl, hsr⟩ := List.forall_mem_append.mp hs
    have hc := hc.defer (.join p)
    have chained := chain_keeps (takes l hsl hc rfl) (fun _ hc => takes r hsr hc)
      (hl hsl hc (S.defer (.join p) hj)).right fun _ hc hj => (hr hsr hc hj).right
    exact leaf_keeps <| Run.meets_modify_bind <| chained.bind fun _ _ h =>
      S.search h.left h.right.right h.right.left

end Keeps

end Reshaping

theorem reshape_returns {ν : Type} {plan : Plan ν} (hs : ∀ r ∈ plan.scans, r.statistics.Counts 0) :
    ∃ r, reshape options plan {} = .ok r :=
  have ⟨r, hr, _⟩ := (Reshaping.ofPlan_takes .nonneg plan hs nofun nofun
    Demand.covers_empty rfl).plan.returns
  ⟨r, hr⟩

theorem optimise_meets {ν : Type} {plan : Plan ν} (I : PlanInvariant False G F)
    (hs : ∀ r ∈ plan.scans, G (.scanning r)) :
    Meets F (reshape options plan >>= conclude) {} fun q _ => G q := by
  have hy : Meets F (reshape options plan) {} _ :=
    (Reshaping.ofPlan_takes I plan hs nofun nofun Demand.covers_empty rfl).plan
  refine hy.bind fun q d y => Run.meets_demand_bind ?_
  split
  case h_1 => exact Run.meets_report_bind (Run.meets_pure (y.good q (List.mem_singleton_self q)))
  case h_2 => exact Run.meets_report_bind (Run.meets_pure (I.nothing not_false))

-- The result is what the plan was reshaped to, unless some predicate found no place.
theorem optimise_eq_ok_iff {ν : Type} {plan : Plan ν} {o : Outcome (Plan Relation)} :
    optimise options plan = .ok o ↔
    ∃ r, reshape options plan {} = .ok r ∧ (
      (r.demand.unmatched = [] ∧ o = { r with
        events := r.events ++ [.optimised r.value.operator r.value.tupleCount] }) ∨
      (r.demand.unmatched ≠ [] ∧ o = { r with
        value := .nothing, events := r.events ++ [.unmatched r.demand.unmatched] })) := by
  have conclude_eq (q : Plan Relation) (d : Demand) : conclude q d = .ok (
      if d.unmatched = [] then
        { value := q, demand := d, events := [.optimised q.operator q.tupleCount] }
      else
        { value := .nothing, demand := d, events := [.unmatched d.unmatched] }) := by
    cases hu : d.unmatched <;>
      simp [conclude, Run.demand, bind, Run.bind, pure, Run.pure, hu]
  rw [optimise, Run.bind_eq_ok_iff]
  constructor
  · rintro ⟨r, p, hr, hp, rfl⟩
    obtain rfl := Except.ok.inj ((conclude_eq ..).symm.trans hp)
    refine ⟨r, hr, ?_⟩
    split
    case isTrue hu  => exact .inl ⟨hu, rfl⟩
    case isFalse hu => exact .inr ⟨hu, rfl⟩
  · rintro ⟨r, hr, ⟨hu, rfl⟩ | ⟨hu, rfl⟩⟩
    · exact ⟨r, _, hr, conclude_eq .., by simp [hu]⟩
    · exact ⟨r, _, hr, conclude_eq .., by simp [hu]⟩

theorem optimise_of_reshape {ν : Type} {plan : Plan ν} {r : Outcome (Plan Relation)}
    (hr : reshape options plan {} = .ok r) : ∃ o, optimise options plan = .ok o ∧ o.demand = r.demand := by
  by_cases hu : r.demand.unmatched = []
  case pos => exact ⟨_, optimise_eq_ok_iff.mpr ⟨r, hr, .inl ⟨hu, rfl⟩⟩, rfl⟩
  case neg => exact ⟨_, optimise_eq_ok_iff.mpr ⟨r, hr, .inr ⟨hu, rfl⟩⟩, rfl⟩

end QueryPlanner
