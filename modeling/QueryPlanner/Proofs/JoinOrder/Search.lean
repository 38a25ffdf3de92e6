import QueryPlanner.Proofs.JoinOrder.Underway

namespace QueryPlanner.Components

open Predicate (mentions)
open Candidate (predicates)
open Run (Meets)
open Unlimited

variable {exact : Prop} {G : Plan Relation → Prop} {F : Failure → Prop}
variable {leaves : List Handle} {mode : Bool} {kept : Multiset String} {budget : Multiset Part}
variable {c c' : Components} {k : Candidate} {ks ls : List Candidate} {d d' : Demand} {h h' : Handle}
variable {plan : Plan Relation} {p : JoinPredicate}

inductive Built (c : Components) (k : Candidate) : Plan Relation → Prop
  | product {l r} (unrelated : k.predicate = none) (left : c.StandsFor k.left l)
      (right : c.StandsFor k.right r) : Built c k (.multiplying l r)
  | join {p l r q} (related : k.predicate = some p) (left : c.StandsFor k.left l)
      (right : c.StandsFor k.right r) (joined : Plan.joining p l r = .ok q) : Built c k q

namespace Built

theorem good (b : c.Built k plan) (u : Underway exact G leaves mode kept budget c ks d)
    (I : PlanInvariant exact G F) (hk : k ∈ ks) : G plan := by
  cases b
  case product hl hr => exact I.product (u.good _ hl.mem) (u.good _ hr.mem)
  case join hp hl hr hj =>
    have ⟨hl', hr'⟩ := u.provided k hk _ hp
    exact I.join (u.good _ hl.mem) (u.good _ hr.mem) (hl.has hl') (hr.has hr') hj

theorem contents (b : c.Built k plan) : plan.contents =
    c.contentsAt (c.owner k.left) + c.contentsAt (c.owner k.right) +
      (predicates [k]).map .inr := by
  cases b
  case product hn hl hr =>
    rw [hl.contentsAt, hr.contentsAt, Candidate.predicates_of_none (by simpa using hn),
      Multiset.map_zero, add_zero, Plan.contents_multiplying]
  case join p _ _ hp hl hr hj =>
    have : predicates [k] = {.join p} := by simp [predicates, hp]
    rw [hl.contentsAt, hr.contentsAt, this, Multiset.map_singleton, Plan.contents_of_joining hj,
      ← Multiset.singleton_add, add_comm]

theorem has (b : c.Built k plan) {n : String} (hh : h ∈ k.sides) (hp : c.provides n h) :
    plan.output.has n := by
  have {l r : Plan Relation} (hl : c.StandsFor k.left l) (hr : c.StandsFor k.right r)
      (ho : plan.output.names = l.output.names ++ r.output.names) : plan.output.has n := by
    rw [Relation.has_append ho, Bool.or_eq_true]
    cases List.mem_pair.mp hh
    case inl he => exact .inl (hl.has (he ▸ hp))
    case inr he => exact .inr (hr.has (he ▸ hp))
  cases b
  case product hl hr   => exact this hl hr (Relation.names_product ..)
  case join hl hr hj =>
    obtain ⟨s, hs, rfl⟩ := Plan.joining_eq_ok_iff.mp hj
    exact this hl hr (Relation.names_join hs)

end Built

-- The predicate is never turned round, since both its attributes are where it looks for them.
theorem build_meets (u : Underway exact G leaves mode kept budget c ks d)
    (I : PlanInvariant exact G F) (hk : k ∈ ks) :
    Meets F (c.build k) d fun plan d' => d' = d ∧ c.Built k plan := by
  have ⟨l, hl, gl⟩ := u.standsFor (u.sides k hk k.left k.left_mem_sides)
  have ⟨r, hr, gr⟩ := u.standsFor (u.sides k hk k.right k.right_mem_sides)
  unfold build
  rw [hl.plan_eq, hr.plan_eq]
  simp only [pure_bind]
  cases hp : k.predicate
  case none   => exact Run.meets_pure ⟨rfl, .product hp hl hr⟩
  case some p =>
    have ⟨hl', hr'⟩ := u.provided k hk p hp
    dsimp only
    rw [hl.has hl', Bool.not_true, Bool.false_and, if_neg Bool.false_ne_true]
    refine Run.meets_ofEstimate (fun q hq => ⟨rfl, .join hp hl hr hq⟩) fun e he => ?_
    exact I.join_failure gl gr (hl.has hl') (hr.has hr') he

theorem cost_meets (u : Underway exact G leaves mode kept budget c ks d)
    (I : PlanInvariant exact G F) (hk : k ∈ ks) :
    Meets F (c.cost k) d fun r d' => d' = d ∧ r.1 = k ∧ c.Built k r.2 :=
  (build_meets u I hk).bind fun _ _ ⟨hd, hb⟩ =>
    Run.meets_report_bind <| Run.meets_pure ⟨hd, rfl, hb⟩

theorem cheapest_meets {options : Options} {first : Candidate} {rest : List Candidate}
    (u : Underway exact G leaves mode kept budget c (first :: rest) d)
    (I : PlanInvariant exact G F) :
    Meets F (c.cheapest options first rest) d fun r d' =>
      d' = d ∧ r.1 ∈ first :: rest ∧ c.Built r.1 r.2 := by
  refine (cost_meets u I (List.mem_cons_self ..)).bind fun best d' ⟨hd, hb, hb'⟩ => ?_
  have hbest : d' = d ∧ best.1 ∈ first :: rest ∧ c.Built best.1 best.2 :=
    ⟨hd, hb ▸ List.mem_cons_self .., hb.symm ▸ hb'⟩
  split
  case isFalse => exact Run.meets_pure hbest
  case isTrue  =>
    refine (Run.meets_foldlM (I := fun ks (r : Candidate × Plan Relation) d' =>
      ks ⊆ rest ∧ d' = d ∧ r.1 ∈ first :: rest ∧ c.Built r.1 r.2) ?_ rest best d'
      ⟨List.Subset.refl _, hbest⟩).mono fun _ _ h => h.right
    intro k ks r d' ⟨hsub, hd, hr, hb⟩
    have hk := List.mem_cons_of_mem first (hsub (List.mem_cons_self ..))
    refine (hd ▸ cost_meets u I hk).bind fun s e ⟨he, hs, hb'⟩ => Run.meets_pure ?_
    refine ⟨List.subset_of_cons_subset hsub, he.trans hd, ?_⟩
    unfold cheaper
    split
    · exact ⟨hs ▸ hk, hs.symm ▸ hb'⟩
    · exact ⟨hr, hb⟩

theorem materialise_takeOver (c : Components) (k : Candidate) (plan : Plan Relation) (d : Demand) :
    Meets F (c.materialise k plan) d fun c' d' =>
      d' = k.released d ∧ c' = c.takeOver [k.left, k.right] (d'.narrowed plan) := by
  have goal {d'} (hd : d' = k.released d) :
      Meets F (narrow plan >>= fun q => pure (c.takeOver [k.left, k.right] q)) d' fun c' d' =>
        d' = k.released d ∧ c' = c.takeOver [k.left, k.right] (d'.narrowed plan) := by
    refine (narrow_result plan d').bind ?_
    rintro _ e ⟨rfl, rfl⟩
    exact Run.meets_pure ⟨hd, rfl⟩
  unfold materialise
  refine Run.meets_report_bind ?_
  cases hp : k.predicate
  case none   => exact goal (by rw [Candidate.released, hp])
  case some p => exact Run.meets_modify_bind (goal (by rw [Candidate.released, hp]))

theorem materialise_meets (u : Underway exact G leaves mode kept budget c (k :: ks) d)
    (I : PlanInvariant exact G F) (hm : exact → mode = false) (ho : c.owner k.left ≠ c.owner k.right)
    (hb : c.Built k plan) :
    Meets F (c.materialise k plan) d fun c' d' =>
      Underway exact G leaves mode kept budget c' ks d' ∧
        (c'.roots leaves).card + 1 = (c.roots leaves).card := by
  have hr : ∀ h ∈ [k.left, k.right], c.owner h ∈ c.roots leaves := u.sides k (List.mem_cons_self ..)
  have hn : [k.left, k.right] ≠ [] := List.cons_ne_nil _ _
  have hc : plan.contents = ∑ h ∈ ([k.left, k.right].map c.owner).toFinset, c.contentsAt h +
      (predicates [k]).map .inr := by
    simp [hb.contents, Finset.sum_pair ho]
  refine (materialise_takeOver c k plan d).mono ?_
  rintro _ d' ⟨rfl, rfl⟩
  constructor
  · exact u.realise I hm hn hr (hb.good u I (List.mem_cons_self ..)) hc (fun _ _ hh hp => hb.has hh hp)
      (k.pending_released d).symm (k.narrowing_released d) u.covers_released
      (Demand.narrowed_narrowed _ plan)
  · have := card_roots_takeOver u.formed u.inside hn hr ((k.released d).narrowed plan)
    simpa [Finset.card_pair ho] using this

def within (k : Handle × JoinPredicate) : Candidate where
  left      := k.1
  right     := k.1
  predicate := some k.2

theorem selectWithin_takeOver {k : Handle × JoinPredicate}
    (hp : (∃ plan, c.StandsFor k.1 plan) ∨ F (.danglingHandle k.1))
    (hF : ∀ plan e, c.StandsFor k.1 plan → Plan.selecting (.join k.2) plan = .error e →
      F (.negativeTupleCount e.count)) :
    Meets F (c.selectWithin k) d fun c' d' => d' = d.releaseJoin k.2 ∧
      ∃ plan q, c.StandsFor k.1 plan ∧ Plan.selecting (.join k.2) plan = .ok q ∧
        c' = c.takeOver [k.1] (d'.narrowed q) := by
  unfold selectWithin Components.plan
  cases hk : c.plans[c.owner k.1]?
  case none =>
    refine hp.resolve_left fun h => ?_
    obtain ⟨plan, hp⟩ := h
    exact absurd (hp.symm.trans hk) (Option.some_ne_none plan)
  case some plan =>
    rw [pure_bind]
    refine (Run.meets_ofEstimate (Q := fun q d' => d' = d ∧ Plan.selecting (.join k.2) plan = .ok q)
      (fun q hq => ⟨rfl, hq⟩) fun e he => hF plan e hk he).bind ?_
    rintro q d' ⟨rfl, hq⟩
    refine Run.meets_modify_bind <| (narrow_result q _).bind ?_
    rintro _ e ⟨rfl, rfl⟩
    exact Run.meets_pure (a := c.takeOver [k.1] _) ⟨rfl, plan, q, hk, hq, rfl⟩

theorem selectWithin_meets {k : Handle × JoinPredicate}
    (u : Underway exact G leaves mode kept budget c (within k :: ks) d)
    (I : PlanInvariant exact G F) (hm : exact → mode = false) :
    Meets F (c.selectWithin k) d fun c' d' =>
      Underway exact G leaves mode kept budget c' ks d' ∧
        (c'.roots leaves).card = (c.roots leaves).card := by
  have hr : ∀ h ∈ [k.1], c.owner h ∈ c.roots leaves := by
    simpa [Candidate.sides, within] using u.sides (within k) (List.mem_cons_self ..)
  have hn : [k.1] ≠ [] := List.cons_ne_nil _ _
  obtain ⟨plan, hp, hg⟩ := u.standsFor (hr k.1 (List.mem_singleton_self _))
  obtain ⟨hl, hr'⟩ := u.provided (within k) (List.mem_cons_self ..) k.2 rfl
  have hs : Meets F (Run.ofEstimate (Plan.selecting (.join k.2) plan)) d _ := I.selecting_meets hg <| by
    simp only [Predicate.attributes, JoinPredicate.attributes, List.mem_pair]
    rintro n (rfl | rfl)
    · exact hp.has hl
    · exact hp.has hr'
  refine (selectWithin_takeOver (.inl ⟨plan, hp⟩) fun plan' e hp' he => ?_).mono ?_
  · obtain rfl := hp.unique hp'
    exact hs.failure (by rw [he]; rfl)
  · rintro _ d' ⟨rfl, plan', q, hp', hq, rfl⟩
    obtain rfl := hp.unique hp'
    obtain ⟨_, hg, hc, hnames⟩ := hs.elim (show _ = Except.ok ⟨q, d, []⟩ by rw [hq]; rfl)
    constructor
    · refine u.realise I hm hn hr hg ?_ ?_ (Demand.pending_releaseAll ..).symm ?_ ?_
        (Demand.narrowed_narrowed _ q)
      · have : predicates [within k] = {.join k.2} := by simp [predicates, within]
        simp only [hc, List.map_cons, List.map_nil, List.toFinset_cons, List.toFinset_nil,
          insert_empty_eq, Finset.sum_singleton, hp.contentsAt, this, Multiset.map_singleton,
          ← Multiset.singleton_add, add_comm]
      · intro n h hh hn
        rw [Relation.has_eq_of_names hnames]
        exact hp.has (List.mem_singleton.mp hh ▸ hn)
      · exact Demand.narrowing_releaseAll ..
      · exact u.release rfl
    · -- A single root is taken over by a new one.
      have := card_roots_takeOver u.formed u.inside hn hr ((d.releaseJoin k.2).narrowed q)
      simpa using this

theorem isOutstanding_iff : c.isOutstanding k ↔
    c.isEliminated k.left = false ∧ c.isEliminated k.right = false ∧
      c.owner k.left ≠ c.owner k.right := by
  simp [isOutstanding, and_assoc]

theorem collapsed?_eq_some_iff {h : Handle} : c.collapsed? k = some (h, p) ↔
    c.isEliminated k.left = false ∧ c.owner k.left = c.owner k.right ∧ k.left = h ∧
      k.predicate = some p := by
  unfold collapsed?
  split <;> simp_all [and_comm]

def settled (c : Components) (ks : List Candidate) : List Candidate :=
  (ks.filterMap c.collapsed?).map within ++ ks.filter c.isOutstanding

theorem settled_perm (c : Components) (ks : List Candidate) : (c.settled ks).Perm
    ((sortByText (·.2.text) (ks.filterMap c.collapsed?)).map within ++ ks.filter c.isOutstanding) :=
  ((sortByText_perm ..).symm.map within).append_right _

theorem mem_settled (hk : k ∈ c.settled ks) : k ∈ ks ∨ ∃ k' ∈ ks, ∃ p, k'.predicate = some p ∧
    c.owner k'.left = c.owner k'.right ∧ k = within (k'.left, p) := by
  obtain hk | hk := List.mem_append.mp hk
  · obtain ⟨⟨h, p⟩, hm, rfl⟩ := List.mem_map.mp hk
    obtain ⟨k', hk', hc⟩ := List.mem_filterMap.mp hm
    obtain ⟨_, ho, rfl, hp⟩ := collapsed?_eq_some_iff.mp hc
    exact .inr ⟨k', hk', p, hp, ho, rfl⟩
  · exact .inl (List.mem_of_mem_filter hk)

theorem length_outstanding_lt (hc : ks.filterMap c.collapsed? ≠ []) :
    (ks.filter c.isOutstanding).length < ks.length := by
  obtain ⟨⟨h, p⟩, hm⟩ := List.exists_mem_of_ne_nil _ hc
  obtain ⟨k, hk, hkc⟩ := List.mem_filterMap.mp hm
  obtain ⟨_, he, _, _⟩ := collapsed?_eq_some_iff.mp hkc
  exact List.length_filter_lt_length_iff_exists.mpr ⟨k, hk, by simp [isOutstanding, he]⟩

theorem retains_settled (ks : List Candidate) (he : exact → ∀ k ∈ ks, ∀ p, k.predicate = some p →
    c.isEliminated k.left = false ∧ c.isEliminated k.right = false) :
    Retains exact (predicates ks) (predicates (c.settled ks)) := by
  induction ks
  case nil => exact .refl _
  case cons k ks hi =>
    have hi := hi fun hx k' hk' => he hx k' (List.mem_cons_of_mem _ hk')
    rw [Candidate.predicates_cons k ks]
    cases hc : c.collapsed? k
    case some kp =>
      obtain ⟨_, ho, hl, hp⟩ := collapsed?_eq_some_iff.mp hc
      have hk : predicates [k] = predicates [within kp] := by simp [predicates, within, hp]
      have hno : c.isOutstanding k = false := by simp [isOutstanding, ho]
      rw [settled, List.filterMap_cons_some hc, List.filter_cons_of_neg (by simp [hno]), List.map_cons,
        List.cons_append, Candidate.predicates_cons (within kp), hk]
      exact (Retains.refl _).add hi
    case none =>
      rw [settled, List.filterMap_cons_none hc]
      by_cases ho : c.isOutstanding k
      case pos =>
        rw [List.filter_cons_of_pos ho, Candidate.predicates_perm List.perm_middle,
          Candidate.predicates_cons k (_ ++ _)]
        exact (Retains.refl _).add hi
      case neg =>
        -- A candidate that is neither goes away, without a predicate if nothing is eliminated.
        rw [List.filter_cons_of_neg ho]
        refine (Retains.of_le (Multiset.le_add_left ..) fun hx => ?_).trans hi
        have hn : ∀ k' ∈ [k], k'.predicate = none := by
          rw [List.forall_mem_singleton, Option.eq_none_iff_forall_ne_some]
          intro p hp
          obtain ⟨hl, hr⟩ := he hx k (List.mem_cons_self ..) p hp
          unfold collapsed? at hc
          rw [isOutstanding_iff] at ho
          simp_all
        rw [Candidate.predicates_of_none hn, zero_add]

theorem settled_underway (u : Underway exact G leaves mode kept budget c ks d)
    (I : PlanInvariant exact G F) :
    Underway exact G leaves mode kept budget c (c.settled ks) d := by
  refine u.revise (fun k hk => ?_) (fun k hk p hp => ?_) (retains_settled ks fun hx k hk _ _ => ?_)
  case refine_1 =>
    obtain hk | ⟨k', hk', _, _, _, rfl⟩ := mem_settled hk
    · exact u.sides k hk
    · have := u.sides k' hk' k'.left k'.left_mem_sides
      simpa [Candidate.sides, within] using this
  case refine_2 =>
    obtain hk | ⟨k', hk', p', hp', ho, rfl⟩ := mem_settled hk
    · exact u.provided k hk p hp
    · obtain rfl : p' = p := by simpa [within] using hp
      obtain ⟨hl, hr⟩ := u.provided k' hk' p' hp'
      exact ⟨hl, provides_congr ho ▸ hr⟩
  case refine_3 =>
    have (h) (hh : h ∈ k.sides) := u.not_isEliminated I hx (u.sides k hk h hh)
    exact ⟨this k.left k.left_mem_sides, this k.right k.right_mem_sides⟩

-- What every selection within a component keeps up, settling keeps up. With as many rounds as there are
-- candidates, nothing is left but outstanding candidates.
theorem meets_settle_go {K : Components → List Candidate → Demand → Prop}
    (perm : ∀ {c ks ls d}, ks.Perm ls → K c ks d → K c ls d)
    (settled : ∀ {c ks d}, K c ks d → K c (c.settled ks) d)
    (select : ∀ {c k ks d}, K c (within k :: ks) d →
      Meets F (c.selectWithin k) d fun c' d' => K c' ks d')
    (fuel : Nat) (hk : K c ks d) (hf : ks.length ≤ fuel) :
    Meets F (settle.go fuel c ks) d fun r d' =>
      K r.1 r.2 d' ∧ ∀ k ∈ r.2, r.1.isOutstanding k := by
  induction fuel generalizing c ks d
  case zero =>
    obtain rfl := List.length_eq_zero_iff.mp (Nat.le_zero.mp hf)
    exact Run.meets_pure ⟨hk, nofun⟩
  case succ fuel hi =>
    have hk := settled hk
    rw [settle.go]
    split
    case h_1 hc =>
      rw [Components.settled, hc, List.map_nil, List.nil_append] at hk
      exact Run.meets_pure ⟨hk, fun k hk => (List.mem_filter.mp hk).right⟩
    case h_2 hc =>
      have start := perm (c.settled_perm ks) hk
      have worked := Run.meets_foldlM
        (I := fun rest c' d' => K c' (rest.map within ++ ks.filter c.isOutstanding) d')
        (fun _ _ _ _ => select) _ c d start
      have := length_outstanding_lt hc
      exact worked.bind fun _ _ hk => hi hk (by omega)

theorem collapsed?_eq_none (ho : c.isOutstanding k) : c.collapsed? k = none := by
  simp [collapsed?, (isOutstanding_iff.mp ho).right.right]

theorem settle_go_of_outstanding (fuel : Nat) (ho : ∀ k ∈ ks, c.isOutstanding k) :
    settle.go fuel c ks = pure (c, ks) := by
  cases fuel
  case zero => rfl
  case succ =>
    have hn : ks.filterMap c.collapsed? = [] :=
      List.filterMap_eq_nil_iff.mpr fun k hk => collapsed?_eq_none (ho k hk)
    rw [settle.go, hn, List.filter_eq_self.mpr ho]

end QueryPlanner.Components
