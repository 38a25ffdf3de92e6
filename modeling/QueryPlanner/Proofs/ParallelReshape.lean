import QueryPlanner.Proofs.JoinOrder.ParallelLeaves
import QueryPlanner.Proofs.Reshape

namespace QueryPlanner

open Run (Match Meets)
open Unlimited

variable {exact : Prop} {modes : Bool → Bool → Prop} {kept : Multiset String}
variable {same : (String → Bool) → Plan Relation → Plan Relation → Prop}
variable {G : Plan Relation → Prop} {F : Failure → Prop} {mode : Bool} {budget : Multiset Part}
variable {options options' : Options} {d d₁ e e₁ : Demand} {plan q q' : Plan Relation}
variable {qs : List (Plan Relation)}

theorem Yields.mem_budget {p : Predicate} (y : Yields False G mode kept budget qs d)
    (hp : p ∈ d.pending) : .inr p ∈ budget :=
  Multiset.mem_of_le y.retained.left <| Multiset.mem_add.mpr <| .inr <| Multiset.mem_map_of_mem _ hp

-- What both runs end with: the demands are alike, and so are the plans unless nothing is left in
-- either run.
structure Abreast (exact : Prop) (modes : Bool → Bool → Prop)
    (same : (String → Bool) → Plan Relation → Plan Relation → Prop) (q : Plan Relation) (d : Demand)
    (q' : Plan Relation) (e : Demand) : Prop where
  demands : d.Alike exact modes e
  plans   : same d.required.isRequired q q' ∨ q = .nothing ∧ q' = .nothing

structure PlacingAbreast (exact : Prop) (modes : Bool → Bool → Prop) (kept : Multiset String)
    (same : (String → Bool) → Plan Relation → Plan Relation → Prop) (r : NamedRelation) (d : Demand)
    (rest : List Predicate) (q : Plan Relation) (d₁ : Demand) (q' : Plan Relation) (e₁ : Demand) :
    Prop where
  demands : d₁.Alike exact modes e₁
  weaker  : ∀ n, d₁.required.isRequired n → d.required.isRequired n
  plans   : same d₁.required.isRequired q q'
  placing : Placing False (fun _ => True) d.narrowing kept
    ((Plan.scanning r).contents + d.pending.map .inr) r rest q d₁

theorem PlacingAbreast.mem_pending {r : NamedRelation} {rest : List Predicate} {p : Predicate}
    (s : PlacingAbreast exact modes kept same r d rest q d₁ q' e₁) (hp : p ∈ d₁.pending) :
    p ∈ d.pending := by
  have := s.placing.yields.mem_budget hp
  simpa only [Multiset.mem_add, Plan.inr_mem_contents, Plan.scanning, Plan.predicates,
    List.not_mem_nil, false_or, Multiset.mem_map, Sum.inr.injEq, exists_eq_right] using this

section Steps

variable (S : Simulation exact modes kept same)
include S

namespace PlacingAbreast

variable {r : NamedRelation} {rest : List Predicate}

theorem selectValue {p p' : ValuePredicate}
    (s : PlacingAbreast exact modes kept same r d (.value p :: rest) q d₁ q' e₁)
    (hp : Agree exact ValuePredicate.unnumbered p p') :
    Match (selectValue p q) (selectValue p' q') d₁ e₁
      (PlacingAbreast exact modes kept same r d rest) := by
  have hr := s.placing.isRequired p.name (List.mem_singleton_self _)
  refine ((selectValue_match S s.demands hp hr s.plans).and_meets
    (s.placing.selectValue_meets .any)).mono ?_
  rintro _ _ _ _ ⟨⟨ha, hn, hs⟩, s'⟩
  exact ⟨ha, fun n hn' => s.weaker n (hn n hn'), S.mono hn hs, s'⟩

theorem selectJoin {p p' : JoinPredicate}
    (s : PlacingAbreast exact modes kept same r d (.join p :: rest) q d₁ q' e₁)
    (hp : Agree exact JoinPredicate.unnumbered p p') :
    Match (selectJoin p q) (selectJoin p' q') d₁ e₁
      (PlacingAbreast exact modes kept same r d rest) := by
  refine ((selectJoin_match S s.demands hp s.placing.isRequired s.plans).and_meets
    (s.placing.selectJoin_meets .any)).mono ?_
  rintro _ _ _ _ ⟨⟨ha, hn, hs⟩, s'⟩
  exact ⟨ha, fun n hn' => s.weaker n (hn n hn'), S.mono hn hs, s'⟩

end PlacingAbreast

-- Placing predicates on a scan only ever gives up requirements. Which ones find a place there depends on
-- the names of the attributes alone.
theorem placeScan_match {r r' : NamedRelation} (hr : r'.has = r.has)
    (hd : exact ∨ ∀ p ∈ d.pending, p.Legible) (hc : d.Covers kept) (ha : d.Alike exact modes e)
    (hs : same d.required.isRequired (.scanning r) (.scanning r')) :
    Match (placeScan r) (placeScan r') d e fun q d₁ q' e₁ => d₁.Alike exact modes e₁ ∧
      (∀ n, d₁.required.isRequired n → d.required.isRequired n) ∧
        same d₁.required.isRequired q q' := by
  have y : Yields False (fun _ => True) d.narrowing kept _ [.scanning r] d :=
    scanning_yields trivial hc rfl
  unfold placeScan
  rw [hr]
  have selects := (ha.sorted_selects hd).filter (P := fun p => r.has p.name) (Q := fun p => r.has p.name)
    (R := fun p => r.has p.name) (fun _ _ => rfl) (fun _ _ => rfl) (fun _ _ _ => rfl)
  refine Run.match_demand_bind <| (Run.match_foldlM
    (I := fun ps => PlacingAbreast exact modes kept same r d (ps.map .value))
    selects.forall₂ ⟨ha, fun _ => id, hs, y.placingSelects rfl⟩
    fun _ _ _ _ _ _ _ hp s => s.selectValue S hp).bind fun q d₁ q' e₁ s₁ => ?_
  have joins := (s₁.demands.sorted_joins (hd.imp_right fun hd p hp => hd p (s₁.mem_pending hp))).filter
    (P := fun p => !p.isSameName && r.has p.left && r.has p.right)
    (Q := fun p => !p.isSameName && r.has p.left && r.has p.right)
    (R := fun p => !p.isSameName && r.has p.left && r.has p.right)
    (fun _ _ => rfl) (fun _ _ => rfl) (fun _ _ _ => rfl)
  refine Run.match_demand_bind <| (Run.match_foldlM
    (I := fun ps => PlacingAbreast exact modes kept same r d (ps.map .join))
    joins.forall₂ { s₁ with placing := s₁.placing.yields.placingJoins s₁.placing.names }
    fun _ _ _ _ _ _ _ hp s => s.selectJoin S hp).bind fun q d₂ q' e₂ s₂ => ?_
  refine (narrow_match S s₂.demands s₂.placing.yields.covers s₂.plans).mono ?_
  rintro _ _ _ _ ⟨rfl, rfl, hs⟩
  exact ⟨s₂.demands, s₂.weaker, hs⟩

theorem narrow_abreast (h : Abreast exact modes same q d q' e) (hc : d.Covers kept) :
    Match (narrow q) (narrow q') d e fun p d₁ p' e₁ =>
      d = d₁ ∧ e = e₁ ∧ Abreast exact modes same p d p' e := by
  cases h.plans
  case inl hs =>
    refine (narrow_match S h.demands hc hs).mono ?_
    rintro _ _ _ _ ⟨rfl, rfl, hs⟩
    exact ⟨rfl, rfl, h.demands, .inl hs⟩
  case inr hn =>
    have ⟨hq, hq'⟩ := hn
    subst hq hq'
    refine Match.of_meets (narrow_result (F := fun _ => True) .nothing d)
      (narrow_result (F := fun _ => True) .nothing e) ?_
    rintro _ _ _ _ ⟨rfl, rfl⟩ ⟨rfl, rfl⟩
    exact ⟨rfl, rfl, h.demands, .inr ⟨Demand.narrowed_nothing _, Demand.narrowed_nothing _⟩⟩

omit S

theorem underProjection_match (outer : Bool → Bool → Prop) {names : List String} {input input' : Run (Plan Relation)}
    (S : Simulation exact modes (names + kept) same) (ho : outer d.narrowing e.narrowing)
    (hi : Match input input' { d.requireAll names with narrowing := options.pushProjections }
      { e.requireAll names with narrowing := options'.pushProjections }
      fun q d₁ q' e₁ => Abreast exact modes same q d₁ q' e₁ ∧ d₁.Covers (names + kept)) :
    Match (underProjection options names input) (underProjection options' names input') d e
      fun q d₁ q' e₁ => d₁.Alike exact outer e₁ ∧ ∃ (d₂ e₂ : Demand) (p p' : Plan Relation),
        q = ensureProjection names p ∧ q' = ensureProjection names p' ∧
          d₂.Covers (names + kept) ∧ Abreast exact modes same p d₂ p' e₂ := by
  unfold underProjection
  refine Run.match_demand_bind <| Run.match_modify_bind <| hi.bind fun q d₁ q' e₁ ⟨h, hc⟩ => ?_
  refine (narrow_abreast S h hc).bind ?_
  rintro p _ p' _ ⟨rfl, rfl, h⟩
  refine Run.match_modify_bind (Run.match_pure ⟨?_, d₁, e₁, p, p', rfl, rfl, hc, h⟩)
  have ha : Demand.Alike exact outer { d₁ with narrowing := d.narrowing }
    { e₁ with narrowing := e.narrowing } := { h.demands with narrowing := ho }
  exact ha.releaseAll names

end Steps

theorem joinOrder_congr (ho : options'.reorderJoins = options.reorderJoins) (root : Operator) :
    joinOrder options' root = joinOrder options root := by
  have cheapest_congr (c : Components) : c.cheapest options' = c.cheapest options := by
    funext k ks
    unfold Components.cheapest
    rw [ho]
  have reduce_congr (fuel : Nat) (leaves : List Handle) (c : Components) (ks : List Candidate) :
      c.reduce options' leaves fuel ks = c.reduce options leaves fuel ks := by
    induction fuel generalizing c ks
    case zero => rfl
    case succ fuel hi =>
      unfold Components.reduce
      simp only [cheapest_congr, hi]
  funext leaves
  unfold joinOrder
  simp only [reduce_congr]

namespace Reshaping

structure Row (exact : Prop) (modes : Bool → Bool → Prop)
    (same : (String → Bool) → Plan Relation → Plan Relation → Prop) (d : Demand)
    (qs : List (Plan Relation)) (d₁ : Demand) (qs' : List (Plan Relation)) (e₁ : Demand) : Prop where
  demands : d₁.Alike exact modes e₁
  plans   : List.Forall₂ (same d₁.required.isRequired) qs qs'
  carries : ∀ {q q'}, same d.required.isRequired q q' → same d₁.required.isRequired q q'

structure Parallel (exact : Prop) (modes : Bool → Bool → Prop)
    (same : (String → Bool) → Plan Relation → Plan Relation → Prop) (x y : Reshaping)
    (d e : Demand) : Prop where
  plan   : Match x.plan y.plan d e (Abreast exact modes same)
  leaves : Match x.leaves y.leaves d e (Row exact modes same d)

theorem leaf_parallel {x y : Run (Plan Relation)} (S : Simulation exact modes kept same)
    (h : Match x y d e fun q d₁ q' e₁ => Abreast exact modes same q d₁ q' e₁ ∧
      ∀ {q q'}, same d.required.isRequired q q' → same d₁.required.isRequired q q') :
    (leaf x).Parallel exact modes same (leaf y) d e where
  plan   := h.mono fun _ _ _ _ h => h.left
  leaves := h.bind fun q d₁ q' e₁ ⟨h, hd⟩ => by
    have dropped : Match (Run.report (.leafDiscarded q.operator) >>= fun _ => pure [])
        (Run.report (.leafDiscarded q'.operator) >>= fun _ => pure []) d₁ e₁
        (Row exact modes same d) :=
      Run.match_report_bind (Run.match_pure ⟨h.demands, .nil, hd⟩)
    cases h.plans
    case inl hs =>
      unfold keepLeaf
      simp only [S.empty hs]
      split
      case isTrue  => exact dropped
      case isFalse => exact Run.match_pure ⟨h.demands, .cons hs .nil, hd⟩
    case inr hn =>
      have ⟨hq, hq'⟩ := hn
      subst hq hq'
      exact dropped

theorem any_takes {ν : Type} (options : Options) (plan : Plan ν) (hc : d.Covers kept) :
    (ofPlan options plan).Takes False (fun _ => True) (fun e => ∃ n, e = .negativeTupleCount n)
      d.narrowing kept (plan.contents + d.pending.map .inr) d :=
  ofPlan_takes .any plan (fun _ _ => trivial) nofun nofun hc rfl

section Chain

variable {ν μ : Type} {l r : Plan ν} {l' r' : Plan μ}

theorem chain_match (hc : d.Covers kept)
    (hl : Match (ofPlan options l).leaves (ofPlan options' l').leaves d e (Row exact modes same d))
    (hr : ∀ d₁ e₁, d₁.Alike exact modes e₁ → d₁.Covers kept →
      (∀ p ∈ d₁.pending, p ∈ l.predicates ∨ p ∈ d.pending) →
      Match (ofPlan options r).leaves (ofPlan options' r').leaves d₁ e₁ (Row exact modes same d₁)) :
    Match (chain (ofPlan options l) (ofPlan options r)) (chain (ofPlan options' l') (ofPlan options' r'))
      d e (Row exact modes same d) := by
  refine (hl.and_meets (any_takes options l hc).leaves).bind fun _ d₁ _ e₁ ⟨h, y, _⟩ => ?_
  have hp : ∀ p ∈ d₁.pending, p ∈ l.predicates ∨ p ∈ d.pending := fun p hp => by
    simpa [Plan.inr_mem_contents] using y.mem_budget hp
  refine (hr d₁ e₁ h.demands y.covers hp).bind fun _ _ _ _ h' => Run.match_pure {
    demands := h'.demands
    plans   := List.rel_append (h.plans.imp fun _ _ => h'.carries) h'.plans
    carries := fun hs => h'.carries (h.carries hs)
  }

theorem joined_match {root root' : Operator} (S : Simulation exact modes kept same)
    (ho : Guided exact options same) (ho' : options'.reorderJoins = options.reorderJoins)
    (hc : d.Covers kept)
    (hb : exact ∨ (∀ p ∈ l.predicates ++ r.predicates, p.Legible) ∧ ∀ p ∈ d.pending, p.Legible)
    (h : Match (chain (ofPlan options l) (ofPlan options r))
      (chain (ofPlan options' l') (ofPlan options' r')) d e (Row exact modes same d)) :
    Match (chain (ofPlan options l) (ofPlan options r) >>= joinOrder options root)
      (chain (ofPlan options' l') (ofPlan options' r') >>= joinOrder options' root') d e
      (Abreast exact modes same) := by
  have hy := chain_meets (any_takes options l hc) fun _ hc₁ hn => hn ▸ any_takes options r hc₁
  rw [joinOrder_congr ho']
  refine (h.and_meets hy).bind fun qs d₁ qs' e₁ ⟨h, y, _⟩ => ?_
  refine (joinOrder_match S .any ho (hb.imp_right fun ⟨hp, hd⟩ p hm => ?_) h.demands h.plans y).mono
    fun _ _ _ _ ⟨ha, hs⟩ => ⟨ha, hs⟩
  have : p ∈ l.predicates ++ r.predicates ∨ p ∈ d.pending := by
    simpa [Plan.inr_mem_contents] using hm
  exact this.elim (hp p) (hd p)

end Chain

theorem plan_selects {ν : Type} (ps : List (ν × Predicate)) (plan : Plan ν) (d : Demand) :
    (ofPlan options (plan.selects ps)).plan d =
      (ofPlan options plan).plan (d.deferAll (ps.map (·.2))) := by
  induction ps generalizing d
  case nil          => rfl
  case cons p ps hi => exact (Run.modify_bind_apply ..).trans (hi _)

theorem selects_match {ν μ : Type} {ps : List (ν × Predicate)} {ps' : List (μ × Predicate)}
    {i : Plan ν} {i' : Plan μ} {R : Plan Relation → Demand → Plan Relation → Demand → Prop}
    (h : Match (ofPlan options i).plan (ofPlan options' i').plan (d.deferAll (ps.map (·.2)))
      (e.deferAll (ps'.map (·.2))) R) :
    Match (ofPlan options (i.selects ps)).plan (ofPlan options' (i'.selects ps')).plan d e R :=
  fun o o' ho ho' => h o o' (plan_selects ps i d ▸ ho) (plan_selects ps' i' e ▸ ho')

end Reshaping

-- A simulation for which it does not matter what is required. It holds below a projection as it does above.
structure Congruent (exact : Prop)
    (same : (String → Bool) → Plan Relation → Plan Relation → Prop) : Prop where
  simulation : ∀ kept, Simulation exact Eq kept same
  any        : ∀ {N N' p q}, same N p q → same N' p q
  nothing    : ∀ {N}, same N .nothing .nothing
  project    : ∀ {N p q} names, same N p q →
    same N (ensureProjection names p) (ensureProjection names q)

namespace Congruent

open Reshaping (ofPlan leaf leaf_parallel chain_match joined_match selects_match any_takes)

variable {ν μ : Type} {i l r : Plan ν} {i' l' r' : Plan μ} {N : String → Bool}
variable (C : Congruent exact same)
include C

theorem of_abreast {modes : Bool → Bool → Prop} (h : Abreast exact modes same q d q' e) :
    same N q q' :=
  h.plans.elim C.any fun ⟨hq, hq'⟩ => by rw [hq, hq']; exact C.nothing

theorem leaf_parallel {x y : Run (Plan Relation)} (h : Match x y d e (Abreast exact Eq same)) :
    (leaf x).Parallel exact Eq same (leaf y) d e :=
  Reshaping.leaf_parallel (C.simulation 0) (h.mono fun _ _ _ _ h => ⟨h, C.any⟩)

theorem scan {n : ν} {m : μ} {s s' : NamedRelation} (hr : s'.has = s.has)
    (hd : exact ∨ ∀ p ∈ d.pending, p.Legible) (hc : d.Covers kept) (ha : d.Alike exact Eq e)
    (hs : same N (.scanning s) (.scanning s')) :
    (ofPlan options (.scan n s)).Parallel exact Eq same (ofPlan options (.scan m s')) d e :=
  C.leaf_parallel <| (placeScan_match (C.simulation kept) hr hd hc ha (C.any hs)).mono
    fun _ _ _ _ ⟨ha, _, hs⟩ => ⟨ha, .inl hs⟩

theorem selects {ps : List (ν × Predicate)} {ps' : List (μ × Predicate)}
    (hl : ps'.length = ps.length)
    (hi : (ofPlan options i).Parallel exact Eq same (ofPlan options i') (d.deferAll (ps.map (·.2)))
      (e.deferAll (ps'.map (·.2)))) :
    (ofPlan options (i.selects ps)).Parallel exact Eq same (ofPlan options (i'.selects ps')) d e := by
  have hplan := selects_match hi.plan
  match ps, ps', hl, hi, hplan with
  | [], [], _, hi, _           => exact hi
  | _ :: _, _ :: _, _, _, hplan => exact C.leaf_parallel hplan

theorem projection {n : ν} {m : μ} {names : List String} (hc : d.Covers kept)
    (ha : d.Alike exact Eq e)
    (hi : ∀ d₁ e₁, d₁.Alike exact Eq e₁ → d₁.Covers (names + kept) → d₁.pending = d.pending →
      (ofPlan options i).Parallel exact Eq same (ofPlan options i') d₁ e₁) :
    (ofPlan options (.project n names i)).Parallel exact Eq same
      (ofPlan options (.project m names i')) d e := by
  have ha' : Demand.Alike exact Eq { d.requireAll names with narrowing := options.pushProjections }
    { e.requireAll names with narrowing := options.pushProjections } :=
    { ha.requireAll names with narrowing := rfl }
  have hc' : Demand.Covers { d.requireAll names with narrowing := options.pushProjections }
    (names + kept) := hc.requireAll names
  have hi := (hi _ _ ha' hc' (d.pending_requireAll names)).plan.and_meets (any_takes options i hc').plan
  refine C.leaf_parallel <| (underProjection_match Eq (C.simulation _) ha.narrowing <|
    hi.mono fun _ _ _ _ ⟨h, y⟩ => ⟨h, y.covers⟩).mono ?_
  rintro _ _ _ _ ⟨ha, d₂, e₂, q, q', rfl, rfl, _, h⟩
  exact ⟨ha, .inl (C.project names (C.of_abreast h))⟩

section Combined

variable (ho : Guided exact options same) (hc : d.Covers kept)
include ho hc

theorem product {n : ν} {m : μ}
    (hb : exact ∨ (∀ p ∈ l.predicates ++ r.predicates, p.Legible) ∧ ∀ p ∈ d.pending, p.Legible)
    (hl : (ofPlan options l).Parallel exact Eq same (ofPlan options l') d e)
    (hr : ∀ d₁ e₁, d₁.Alike exact Eq e₁ → d₁.Covers kept →
      (∀ p ∈ d₁.pending, p ∈ l.predicates ∨ p ∈ d.pending) →
      (ofPlan options r).Parallel exact Eq same (ofPlan options r') d₁ e₁) :
    (ofPlan options (.product n l r)).Parallel exact Eq same (ofPlan options (.product m l' r')) d e := by
  have hch := chain_match hc hl.leaves fun d₁ e₁ ha hc hd => (hr d₁ e₁ ha hc hd).leaves
  exact {
    plan   := joined_match (C.simulation kept) ho rfl hc hb hch
    leaves := hch
  }

theorem join {n : ν} {m : μ} {j j' : JoinPredicate}
    (hb : exact ∨ (∀ p ∈ (Plan.join n j l r).predicates, p.Legible) ∧ ∀ p ∈ d.pending, p.Legible)
    (hl : (ofPlan options l).Parallel exact Eq same (ofPlan options l') (d.deferJoin j) (e.deferJoin j'))
    (hr : ∀ d₁ e₁, d₁.Alike exact Eq e₁ → d₁.Covers kept →
      (∀ p ∈ d₁.pending, p ∈ l.predicates ∨ p ∈ (d.deferJoin j).pending) →
      (ofPlan options r).Parallel exact Eq same (ofPlan options r') d₁ e₁) :
    (ofPlan options (.join n j l r)).Parallel exact Eq same (ofPlan options (.join m j' l' r')) d e := by
  have hc := hc.defer (.join j)
  have hb : exact ∨ (∀ p ∈ l.predicates ++ r.predicates, p.Legible) ∧
      ∀ p ∈ (d.defer (.join j)).pending, p.Legible := hb.imp_right fun ⟨hp, hd⟩ => by
    obtain ⟨hj, hp⟩ := List.forall_mem_cons.mp hp
    rw [Demand.pending_defer]
    exact ⟨hp, Multiset.forall_mem_cons.mpr ⟨hj, hd⟩⟩
  have hch := chain_match hc hl.leaves fun d₁ e₁ ha hc hd => (hr d₁ e₁ ha hc hd).leaves
  exact C.leaf_parallel <| Run.match_modify_bind <| joined_match (C.simulation kept) ho rfl hc hb hch

end Combined
end Congruent

theorem optimise_match {ν μ : Type} {plan : Plan ν} {plan' : Plan μ} {r r' : Outcome (Plan Relation)}
    (hr : reshape options plan {} = .ok r) (hr' : reshape options' plan' {} = .ok r')
    (ha : r.demand.Alike exact modes r'.demand) :
    ∃ o o', optimise options plan = .ok o ∧ optimise options' plan' = .ok o' ∧
      (o.value = r.value ∧ o'.value = r'.value ∨ o.value = .nothing ∧ o'.value = .nothing) := by
  by_cases hu : r.demand.unmatched = []
  case pos =>
    have hu' := ha.unmatched_eq_nil_iff.mpr hu
    exact ⟨_, _, optimise_eq_ok_iff.mpr ⟨r, hr, .inl ⟨hu, rfl⟩⟩,
      optimise_eq_ok_iff.mpr ⟨r', hr', .inl ⟨hu', rfl⟩⟩, .inl ⟨rfl, rfl⟩⟩
  case neg =>
    have hu' := hu ∘ ha.unmatched_eq_nil_iff.mp
    exact ⟨_, _, optimise_eq_ok_iff.mpr ⟨r, hr, .inr ⟨hu, rfl⟩⟩,
      optimise_eq_ok_iff.mpr ⟨r', hr', .inr ⟨hu', rfl⟩⟩, .inr ⟨rfl, rfl⟩⟩

end QueryPlanner
