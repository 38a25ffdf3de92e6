import QueryPlanner.Proofs.Bounds
import QueryPlanner.Proofs.DigitLimit
import QueryPlanner.Proofs.Quiet

namespace QueryPlanner

section Reported

open Candidate (predicates)
open Run (Keeps Meets Tells)
open Unlimited

variable {ν α β γ : Type} {plan q l r : Plan Relation} {s t : Multiset Part}

def Part.size : Part → Nat
  | .inl r => max 1 r.statistics.tupleCount
  | .inr _ => 1

def span (parts : Multiset Part) : Nat :=
  (parts.map Part.size).prod

theorem span_pos (s : Multiset Part) : 0 < span s := by
  induction s using Multiset.induction_on
  case empty       => exact Nat.one_pos
  case cons p s hi =>
    rw [span, Multiset.map_cons, Multiset.prod_cons]
    refine Nat.mul_pos ?_ hi
    cases p
    case inl r => exact Nat.lt_of_lt_of_le Nat.one_pos (le_max_left 1 _)
    case inr   => exact Nat.one_pos

@[simp]
theorem span_add (s t : Multiset Part) : span (s + t) = span s * span t := by
  rw [span, Multiset.map_add, Multiset.prod_add, span, span]

@[simp]
theorem span_cons_inr (p : Predicate) (s : Multiset Part) : span (.inr p ::ₘ s) = span s := by
  rw [span, Multiset.map_cons, Multiset.prod_cons, Part.size, one_mul, span]

@[simp]
theorem span_map_inr (ps : Multiset Predicate) : span (ps.map .inr) = 1 := by
  simp [span, Function.comp_def, Part.size]

theorem span_mono (h : s ≤ t) : span s ≤ span t :=
  Nat.le_of_dvd (span_pos t) (Multiset.prod_dvd_prod_of_le (Multiset.map_le_map h))

structure Small (bound : Nat) (rs : List NamedRelation) : Prop where
  counts : ∀ r ∈ rs, r.statistics.Counts 0
  length : rs.length ≤ bound
  tuples : (rs.map fun r => max 1 r.statistics.tupleCount).prod ≤ bound

namespace Small

variable {rs ss : List NamedRelation} {bound : Nat}

theorem one_le_prod (rs : List NamedRelation) :
    1 ≤ (rs.map fun r => max 1 r.statistics.tupleCount).prod := by
  induction rs
  case nil          => exact le_rfl
  case cons r rs hi => exact Nat.mul_le_mul (le_max_left 1 r.statistics.tupleCount) hi

theorem left (h : Small bound (rs ++ ss)) : Small bound rs where
  counts := (List.forall_mem_append.mp h.counts).left
  length := (List.sublist_append_left rs ss).length_le.trans h.length
  tuples := by
    have ht := h.tuples
    rw [List.map_append, List.prod_append] at ht
    exact (Nat.le_mul_of_pos_right _ (one_le_prod ss)).trans ht

theorem right (h : Small bound (rs ++ ss)) : Small bound ss where
  counts := (List.forall_mem_append.mp h.counts).right
  length := (List.sublist_append_right rs ss).length_le.trans h.length
  tuples := by
    have ht := h.tuples
    rw [List.map_append, List.prod_append] at ht
    exact (Nat.le_mul_of_pos_left _ (one_le_prod rs)).trans ht

end Small

namespace Plan

theorem span_contents (plan : Plan ν) :
    span plan.contents = (plan.scans.map fun r => max 1 r.statistics.tupleCount).prod := by
  induction plan
  case scan _ r =>
    by_cases hr : r = .placeholder
    case pos =>
      subst hr
      rfl
    case neg => simp [contents, hr, span, scans, Part.size]
  case select hi     => exact (span_cons_inr ..).trans hi
  case project hi    => exact hi
  case product hl hr => simp [contents, hl, hr, scans]
  case join hl hr    => simp [contents, hl, hr, scans]

-- There are no more tuples than if the relations of the plan were multiplied, whatever projections are
-- at its root.
def Spanned : Plan Relation → Prop
  | project n _ i => n.tupleCount ≤ span i.contents ∧ i.Spanned
  | plan          => plan.tupleCount ≤ span plan.contents

theorem Spanned.le (h : plan.Spanned) : plan.tupleCount ≤ span plan.contents := by
  cases plan
  case project => exact h.left
  all_goals exact h

theorem Spanned.withoutProjection (h : plan.Spanned) : plan.withoutProjection.Spanned := by
  cases plan
  case project => exact h.right
  all_goals exact h

-- Without counts below zero selections and joins only ever take tuples away.
theorem invariant_spanned :
    PlanInvariant False (fun q => q.Everywhere (Relation.Counts 0) ∧ q.Spanned) fun _ => False where
  nothing h          := ⟨PlanInvariant.nonneg.nothing h, Nat.zero_le _⟩
  project h _ names hg := ⟨PlanInvariant.nonneg.project h names hg.left, hg.right.le, hg.right⟩
  inner h            := ⟨h.left.withoutProjection, h.right.withoutProjection⟩
  present            := False.elim
  product hl hr      := by
    refine ⟨PlanInvariant.nonneg.product hl.left hr.left, ?_⟩
    have hm := Nat.mul_le_mul hl.right.le hr.right.le
    rwa [← span_add] at hm
  select hg hn hq    := by
    refine ⟨PlanInvariant.nonneg.select hg.left hn hq, ?_⟩
    obtain ⟨s, hs, rfl⟩ := selecting_eq_ok_iff.mp hq
    refine ((Relation.tupleCount_select_le hg.left.note hs).trans hg.right.le).trans_eq ?_
    exact (span_cons_inr ..).symm
  select_failure hg  := PlanInvariant.nonneg.select_failure hg.left
  join hl hr hl' hr' hq := by
    refine ⟨PlanInvariant.nonneg.join hl.left hr.left hl' hr' hq, ?_⟩
    obtain ⟨s, hs, rfl⟩ := joining_eq_ok_iff.mp hq
    refine ((Relation.tupleCount_join_le hl.left.note hs).trans
      (Nat.mul_le_mul hl.right.le hr.right.le)).trans_eq ?_
    rw [← span_add]
    exact (span_cons_inr ..).symm
  join_failure hl hr := PlanInvariant.nonneg.join_failure hl.left hr.left

theorem spanned_scanning {r : NamedRelation} (h : r.statistics.Counts 0) :
    (scanning r).Everywhere (Relation.Counts 0) ∧ (scanning r).Spanned := by
  refine ⟨h, ?_⟩
  show r.statistics.tupleCount ≤ _
  rw [span_contents]
  simp [scans, scanning]

end Plan

def Event.Below (bound : Nat) (ev : Event) : Prop :=
  ∀ n ∈ ev.number?, n ≤ bound

theorem Event.Plain.below {ev : Event} (h : ev.Plain) (bound : Nat) : ev.Below bound := by
  simp [Below, h.right]

namespace Run

variable {E : Event → Prop} {F : Failure → Prop} {d : Demand} {x : Run α} {f : α → Run β}

def Reports (E : Event → Prop) (x : Run α) (d : Demand) : Prop :=
  ∀ o, x d = .ok o → ∀ ev ∈ o.events, E ev

theorem Keeps.reports {δ : Type} {g : Demand → δ} (h : x.Keeps E g) (d : Demand) : Reports E x d :=
  fun o ho => (h d o ho).right

theorem Reports.bind {P : α → Demand → Prop} (h : Reports E x d) (hm : Meets F x d P)
    (hf : ∀ a d', P a d' → Reports E (f a) d') : Reports E (x >>= f) d := by
  intro o ho ev hev
  obtain ⟨o₁, o₂, ho₁, ho₂, rfl⟩ := bind_eq_ok_iff.mp ho
  obtain hev | hev := List.mem_append.mp hev
  · exact h o₁ ho₁ ev hev
  · exact hf _ _ (hm.elim ho₁) o₂ ho₂ ev hev

theorem Reports.demand_bind {f : Demand → Run β} (h : Reports E (f d) d) : Reports E (Run.demand >>= f) d :=
  fun o ho => h o ((demand_bind_apply f d).symm.trans ho)

theorem Reports.modify_bind {m : Demand → Demand} {f : Unit → Run β} (h : Reports E (f ()) (m d)) :
    Reports E (Run.modify m >>= f) d :=
  fun o ho => h o ((modify_bind_apply m f d).symm.trans ho)

theorem Reports.foldlM {step : β → γ → Run β} {I : List γ → β → Demand → Prop}
    (reports : ∀ c cs b d, I (c :: cs) b d → Reports E (step b c) d)
    (meets : ∀ c cs b d, I (c :: cs) b d → Meets F (step b c) d (I cs)) :
    ∀ (cs : List γ) (b : β) (d : Demand), I cs b d → Reports E (cs.foldlM step b) d
  | [], b, d, _      => (Keeps.pure (f := fun _ => ()) b).reports d
  | c :: cs, b, d, h => by
    rw [List.foldlM_cons]
    exact (reports c cs b d h).bind (meets c cs b d h) fun b' d' h' => Reports.foldlM reports meets cs b' d' h'

end Run

open Run (Reports)

namespace Components

variable {leaves : List Handle} {mode : Bool} {kept : Multiset String} {budget : Multiset Part}
variable {c : Components} {k : Candidate} {ks : List Candidate} {d : Demand} {options : Options} {bound : Nat}

abbrev Afoot (leaves : List Handle) (mode : Bool) (kept : Multiset String) (budget : Multiset Part)
    (c : Components) (ks : List Candidate) (d : Demand) : Prop :=
  Underway False (fun q => q.Everywhere (Relation.Counts 0) ∧ q.Spanned) leaves mode kept budget c ks d

-- What two different components are combined to is within the budget.
theorem Built.tupleCount_le (b : c.Built k plan) (u : Afoot leaves mode kept budget c ks d) (hk : k ∈ ks)
    (ho : c.isOutstanding k) : plan.tupleCount ≤ span budget := by
  have hne := (isOutstanding_iff.mp ho).right.right
  have hsum : c.contentsAt (c.owner k.left) + c.contentsAt (c.owner k.right) ≤ c.contents leaves := by
    have hsub : {c.owner k.left, c.owner k.right} ⊆ c.roots leaves := by
      simpa [Finset.insert_subset_iff] using Candidate.forall_mem_sides.mp (u.sides k hk)
    rw [← Finset.sum_pair hne, Components.contents, ← Finset.sum_sdiff hsub]
    exact Multiset.le_add_left ..
  have hle := span_mono <| hsum.trans <| ((Multiset.le_add_right ..).trans (Multiset.le_add_right ..)).trans
    u.retained.left
  have hc := congrArg span b.contents
  rw [span_add _ (Multiset.map _ _), span_map_inr, mul_one] at hc
  exact ((b.good u Plan.invariant_spanned hk).right.le.trans_eq hc).trans hle

theorem cost_reports (u : Afoot leaves mode kept budget c ks d) (hk : k ∈ ks) (ho : c.isOutstanding k)
    (hb : span budget ≤ bound) : Reports (Event.Below bound) (c.cost k) d := by
  refine Reports.bind ((c.build_keeps k).reports (g := fun _ => ()) d)
    (build_meets u Plan.invariant_spanned hk) ?_
  rintro q d' ⟨rfl, hq⟩
  have hle : q.tupleCount ≤ bound := (hq.tupleCount_le u hk ho).trans hb
  exact ((Keeps.report (f := fun _ => ()) (by simpa [Event.Below, Event.number?])).bind fun _ =>
    .pure _).reports d'

theorem cheapest_reports {first : Candidate} {rest : List Candidate}
    (u : Afoot leaves mode kept budget c (first :: rest) d)
    (ho : ∀ k ∈ first :: rest, c.isOutstanding k) (hb : span budget ≤ bound) :
    Reports (Event.Below bound) (c.cheapest options first rest) d := by
  have cost {k} (hk : k ∈ first :: rest) : Reports (Event.Below bound) (c.cost k) d :=
    cost_reports u hk (ho k hk) hb
  have same {k} (hk : k ∈ first :: rest) : Meets (fun _ => False) (c.cost k) d fun _ d' => d' = d :=
    (cost_meets u Plan.invariant_spanned hk).mono fun _ _ h => h.left
  have done {α : Type} (a : α) : Reports (Event.Below bound) (pure a) d :=
    (Keeps.pure (f := fun _ => ()) a).reports d
  refine (cost (List.mem_cons_self ..)).bind (same (List.mem_cons_self ..)) ?_
  rintro best d rfl
  split
  case isFalse => exact done best
  case isTrue  =>
    refine Reports.foldlM (F := fun _ => False) (I := fun ks _ d' => ks ⊆ rest ∧ d' = d) ?_ ?_ rest best d
      ⟨List.Subset.refl _, rfl⟩
    · rintro k ks b _ ⟨hs, rfl⟩
      have hk := List.mem_cons_of_mem first (hs (List.mem_cons_self ..))
      exact (cost hk).bind (same hk) fun r _ h => h ▸ done _
    · rintro k ks b _ ⟨hs, rfl⟩
      have hk := List.mem_cons_of_mem first (hs (List.mem_cons_self ..))
      exact (same hk).bind fun _ _ h => Run.meets_pure ⟨List.subset_of_cons_subset hs, h⟩

theorem materialise_tells (c : Components) (k : Candidate) (h : plan.tupleCount ≤ bound) :
    (c.materialise k plan).Tells (Event.Below bound) := by
  have narrowed : (narrow plan).Tells (Event.Below bound) := narrow_keeps (fun _ h => h.below bound) plan
  refine (Keeps.report (by simpa [Event.Below, Event.number?])).bind fun _ => ?_
  split
  case h_1 p _ =>
    exact (Keeps.modify (m := (·.releaseJoin p)) fun _ => rfl).bind fun _ => narrowed.bind fun _ => .pure _
  case h_2     => exact narrowed.bind fun _ => .pure _

theorem length_live_le (c : Components) (leaves : List Handle) : (c.live leaves).length ≤ leaves.length := by
  refine ((nodup_live c leaves).subperm fun x hx => ?_).length_le.trans_eq (List.length_map c.owner)
  exact List.mem_toFinset.mp (mem_live.mp hx).left

theorem agenda_tells (c : Components) (ks : List Candidate) (hl : leaves.length ≤ bound) :
    (c.agenda leaves ks).Tells (Event.Below bound) := by
  refine (settle_go_keeps (fun _ _ => rfl) (fun _ h => h.below bound) _ c ks).bind fun (c', ls) => ?_
  dsimp only
  split
  case isFalse => exact .pure _
  case isTrue  =>
    have hle : (c'.live leaves).length ≤ bound := (c'.length_live_le leaves).trans hl
    split
    case isTrue  => exact (Keeps.report (by simpa [Event.Below, Event.number?])).bind fun _ => .pure _
    case isFalse => exact .pure _

theorem reduce_reports (fuel : Nat) (u : Afoot leaves mode kept budget c ks d) (hl : leaves.length ≤ bound)
    (hb : span budget ≤ bound) :
    Reports (Event.Below bound) (c.reduce options leaves fuel ks) d := by
  induction fuel generalizing c ks d
  case zero         => exact (Keeps.fail (f := fun _ => ()) _).reports d
  case succ fuel hi =>
    rw [reduce]
    refine ((c.agenda_tells ks hl).reports d).bind (agenda_meets Plan.invariant_spanned False.elim u) ?_
    rintro ⟨c', ls⟩ d' ⟨u', ho, _, _⟩
    dsimp only at u' ho ⊢
    cases ls
    case nil             => exact (finish_keeps (f := fun _ => ()) leaves c').reports d'
    case cons first rest =>
      refine (cheapest_reports u' ho hb).bind (cheapest_meets u' Plan.invariant_spanned) ?_
      rintro ⟨best, plan⟩ _ ⟨rfl, hm, hbuilt⟩
      dsimp only at hm hbuilt ⊢
      have hp := List.perm_cons_erase hm
      have hle := (hbuilt.tupleCount_le u' hm (ho best hm)).trans hb
      have hne := (isOutstanding_iff.mp (ho best hm)).right.right
      refine ((c'.materialise_tells best hle).reports _).bind
        (materialise_meets (u'.perm hp) Plan.invariant_spanned False.elim hne hbuilt) ?_
      exact fun c'' e h => hi h.left

end Components

open Components Reshaping

variable {mode : Bool} {kept : Multiset String} {budget : Multiset Part} {d : Demand} {options : Options}
variable {bound : Nat} {qs : List (Plan Relation)}

theorem opening_tells (qs : List (Plan Relation)) : (opening qs).Tells (Event.Below bound) := by
  have selfJoin := selfJoin_tells (fun _ h => h.below bound) (List.range qs.length)
  refine (Keeps.demand.bind fun d => .foldlM selfJoin _ _).bind fun c => ?_
  exact Keeps.demand.bind fun d => (c.joinCandidates_tells _ _).bind fun js => .pure _

theorem opening_leaves (qs : List (Plan Relation)) (d : Demand) :
    Meets (fun _ => True) (opening qs) d fun r _ => r.1.length ≤ qs.length := by
  refine (Run.meets_any _ d).bind fun c d' _ => Run.meets_demand_bind <|
    (Run.meets_any _ d').bind fun js e _ => ?_
  exact Run.meets_pure ((List.length_filter_le ..).trans_eq List.length_range)

theorem joinOrder_reports (root : Operator)
    (y : Yields False (fun q => q.Everywhere (Relation.Counts 0) ∧ q.Spanned) mode kept budget qs d)
    (hq : qs.length ≤ bound) (hb : span budget ≤ bound) :
    Reports (Event.Below bound) (joinOrder options root qs) d := by
  by_cases hn : qs = []
  case pos =>
    subst hn
    exact ((Keeps.report (f := fun _ => ()) (Event.Plain.below ⟨rfl, rfl⟩ bound)).bind fun _ =>
      .pure _).reports d
  case neg =>
    rw [joinOrder_eq options root hn]
    refine ((opening_tells qs).reports d).bind
      ((opening_meets Plan.invariant_spanned False.elim y).and_of_any (opening_leaves qs d)) ?_
    rintro ⟨leaves, c, ks⟩ d' ⟨⟨u, -⟩, hl⟩
    dsimp only at u hl ⊢
    split
    case h_1 => exact (Keeps.pure (f := fun _ => ()) _).reports d'
    case h_2 => exact (plan_keeps (f := fun _ => ()) c _).reports d'
    case h_3 => exact reduce_reports _ u (hl.trans hq) hb

theorem length_leaves_le (options : Options) (plan : Plan ν) (d : Demand) :
    Meets (fun _ => True) (ofPlan options plan).leaves d fun qs _ => qs.length ≤ plan.scans.length := by
  have leaf (x : Run (Plan Relation)) (d : Demand) {n : Nat} (hn : 0 < n) :
      Meets (fun _ => True) (leaf x).leaves d fun qs _ => qs.length ≤ n := by
    refine (Run.meets_any x d).bind fun q d' _ => ?_
    unfold keepLeaf
    split
    case isTrue  => exact Run.meets_report_bind (Run.meets_pure (Nat.zero_le n))
    case isFalse => exact Run.meets_pure hn
  induction plan generalizing d
  case product l r hl hr =>
    refine (hl d).bind fun qs d' h => (hr d').bind fun rs e h' => Run.meets_pure ?_
    rw [List.length_append, Plan.scans, List.length_append]
    exact Nat.add_le_add h h'
  all_goals exact leaf _ d (List.length_pos_iff.mpr (Plan.scans_ne_nil _))

theorem takes_spanned (options : Options) (plan : Plan ν) (hs : Small bound plan.scans)
    (hc : d.Covers kept) (hm : d.narrowing = mode) :
    (ofPlan options plan).Takes False (fun q => q.Everywhere (Relation.Counts 0) ∧ q.Spanned)
      (fun _ => False) mode kept (plan.contents + d.pending.map .inr) d :=
  ofPlan_takes Plan.invariant_spanned plan (fun r hr => Plan.spanned_scanning (hs.counts r hr))
    False.elim False.elim hc hm

theorem chain_reports {l r : Plan ν} (hs : Small bound (l.scans ++ r.scans)) (hc : d.Covers kept)
    (hl : Reports (Event.Below bound) (ofPlan options l).leaves d)
    (hr : ∀ d', d'.Covers kept → Reports (Event.Below bound) (ofPlan options r).leaves d') :
    Reports (Event.Below bound) (chain (ofPlan options l) (ofPlan options r)) d ∧
      ∀ root, Reports (Event.Below bound)
        (chain (ofPlan options l) (ofPlan options r) >>= joinOrder options root) d := by
  have left := takes_spanned options l hs.left hc rfl
  have right (d') (hc' : Demand.Covers d' kept) (hm : d'.narrowing = d.narrowing) :=
    takes_spanned options r hs.right hc' hm
  have chained : Reports (Event.Below bound) (chain (ofPlan options l) (ofPlan options r)) d :=
    hl.bind left.leaves fun qs d' y => (hr d' y.left.covers).bind (Run.meets_any _ d')
      fun rs e _ => (Keeps.pure (f := fun _ => ()) _).reports e
  have few : Meets (fun _ => True) (chain (ofPlan options l) (ofPlan options r)) d fun qs _ =>
      qs.length ≤ bound :=
    (length_leaves_le options l d).bind fun qs d' h => (length_leaves_le options r d').bind fun rs e h' =>
      Run.meets_pure <| by
        have hn := hs.length
        rw [List.length_append] at hn ⊢
        omega
  refine ⟨chained, fun root => chained.bind ((chain_meets left right).and_of_any few) ?_⟩
  rintro qs d' ⟨⟨y, -⟩, hq⟩
  refine joinOrder_reports root y hq ?_
  rw [span_add, span_add, span_map_inr, mul_one, Plan.span_contents, Plan.span_contents,
    ← List.prod_append, ← List.map_append]
  exact hs.tuples

-- Neither the relations below a plan nor the tuples that they can have together are surpassed by any
-- number that reshaping it reports.
theorem ofPlan_reports (options : Options) (plan : Plan ν) (hs : Small bound plan.scans)
    (hc : d.Covers kept) :
    Reports (Event.Below bound) (ofPlan options plan).plan d ∧
      Reports (Event.Below bound) (ofPlan options plan).leaves d := by
  have plain (ev : Event) (h : ev.Plain) : ev.Below bound := h.below bound
  have leaf {x : Run (Plan Relation)} {d : Demand} (h : Reports (Event.Below bound) x d) :
      Reports (Event.Below bound) (leaf x).plan d ∧ Reports (Event.Below bound) (leaf x).leaves d :=
    ⟨h, h.bind (Run.meets_any x d) fun q d' _ => (keepLeaf_tells plain q).reports d'⟩
  induction plan generalizing d kept
  case scan r        => exact leaf ((placeScan_tells plain r).reports d)
  case select p i hi => exact leaf (Reports.modify_bind (hi hs (hc.defer p)).left)
  case project names i hi =>
    have hc : Demand.Covers { d.requireAll names with narrowing := options.pushProjections }
      (names + kept) := hc.requireAll names
    refine leaf (Reports.demand_bind (Reports.modify_bind ?_))
    refine (hi hs hc).left.bind (Run.meets_any _ _) fun q d' _ => ?_
    refine ((narrow_keeps (f := fun _ => ()) plain q).reports d').bind (Run.meets_any _ _) fun q d'' _ => ?_
    exact Reports.modify_bind ((Keeps.pure (f := fun _ => ()) _).reports _)
  case product n l r hl hr =>
    have h := chain_reports hs hc (hl hs.left hc).right fun _ hc' => (hr hs.right hc').right
    exact ⟨h.right .product, h.left⟩
  case join n p l r hl hr =>
    have hc := hc.defer (.join p)
    have h := chain_reports hs hc (hl hs.left hc).right fun _ hc' => (hr hs.right hc').right
    exact leaf (Reports.modify_bind (h.right (.join p)))

theorem optimise_reports {plan : Plan ν} {o : Outcome (Plan Relation)} (hs : Small bound plan.scans)
    (ho : optimise options plan = .ok o) : ∀ ev ∈ o.events, ev.Below bound := by
  obtain ⟨r, hr, h⟩ := optimise_eq_ok_iff.mp ho
  have reported := (ofPlan_reports options plan hs Demand.covers_empty).left r hr
  have y := (takes_spanned options plan hs Demand.covers_empty rfl).plan.elim hr
  have hv : r.value.tupleCount ≤ bound := by
    have hle := span_mono y.retained.left
    simp only [List.map_cons, List.map_nil, List.sum_cons, List.sum_nil, add_zero, span_add,
      span_map_inr, mul_one, Plan.span_contents plan] at hle
    exact ((y.good r.value (List.mem_singleton_self _)).right.le.trans hle).trans hs.tuples
  obtain ⟨_, rfl⟩ | ⟨_, rfl⟩ := h
  · refine List.forall_mem_append.mpr ⟨reported, List.forall_mem_singleton.mpr ?_⟩
    simpa [Event.Below, Event.number?]
  · refine List.forall_mem_append.mpr ⟨reported, List.forall_mem_singleton.mpr ?_⟩
    simp [Event.Below, Event.number?]

end Reported

section Limited

open Unlimited (noLimit)

variable [DigitLimit] {ν : Type}

theorem Event.Below.fits {ev : Event} {bound : Nat} (h : ev.Below bound)
    (hb : ∀ k ∈ DigitLimit.limit, bound < 10 ^ k) : ev.exceeded? = none := by
  rw [Event.exceeded?, Option.bind_eq_none_iff]
  intro n hn
  rw [DigitLimit.exceeded?, Option.filter_eq_none_iff]
  intro k hk
  have hn := h n hn
  have hk := hb k hk
  simp only [decide_eq_true_eq, Nat.pow_eq]
  omega

-- Predicates are pending when they are placed, every handle stands for a component, and the search comes
-- to an end. Without counts below zero only a number that is reported can stop it, and none does that if
-- the limit has room for all tuples there can be.
theorem optimise_safe (options : Options) (plan : Plan ν) :
    (∀ e, optimise options plan = .error e →
      (∃ n, e = .negativeTupleCount n) ∨ ∃ k, e = .tooManyDigits k) ∧
    ((∀ r ∈ plan.scans, r.statistics.Counts 0) →
      ∃ o, @optimise noLimit ν options plan = .ok o ∧ optimise options plan = o.limited ∧
        o.value.Everywhere Relation.Bounded ∧
        ∀ bound, Small bound plan.scans → (∀ k ∈ DigitLimit.limit, bound < 10 ^ k) →
          optimise options plan = .ok o) := by
  have hl := optimise_limited options plan
  have ⟨failure, returns⟩ := optimise_bounded options plan
  refine ⟨fun e he => ?_, fun hs => ?_⟩
  · exact (he ▸ hl).error.imp_left (failure e)
  · obtain ⟨o, ho, hv⟩ := returns hs
    have heq : optimise options plan = o.limited := (ho ▸ hl).eq_limited
    refine ⟨o, ho, heq, hv, fun bound hb hk => ?_⟩
    have fits : o.exceeded? = none :=
      List.findSome?_eq_none_iff.mpr fun ev hev => (optimise_reports hb ho ev hev).fits hk
    rw [heq, Outcome.limited, fits]

end Limited

theorem optimise_safe_barren : (∀ r ∈ barren.scans, r.statistics.Counts 0) ∧ Small 12 barren.scans ∧
    (∀ k ∈ DigitLimit.standard.limit, 12 < 10 ^ k) ∧
    ∃ o, optimise {} barren = .ok o ∧ o.value.Everywhere Relation.Bounded := by
  have hs : ∀ r ∈ barren.scans, r.statistics.Counts 0 := by decide
  have hb : Small 12 barren.scans := ⟨hs, by decide, by decide⟩
  have hk : ∀ k ∈ DigitLimit.standard.limit, 12 < 10 ^ k := by
    rintro k ⟨⟩
    decide +kernel
  obtain ⟨o, _, _, hv, ho⟩ := (optimise_safe {} barren).right hs
  exact ⟨hs, hb, hk, o, ho 12 hb hk, hv⟩

example : (optimise {} barren).toOption.map (fun o => (o.value.text, o.value.output.render)) =
    some ("PROJECT [c,y] ((PROJECT [b] (SELECT [a=\"x\"] (r))) JOIN [b=d] (s))", "0:c,0:y,0") := by
  decide +kernel

def vast : Plan Unit :=
  .product ()
    (.scan () { name := "r", statistics := .of (10 ^ 2500) [⟨"a", 1⟩] })
    (.scan () { name := "s", statistics := .of (10 ^ 2500) [⟨"b", 1⟩] })

theorem optimise_vast : (∀ r ∈ vast.scans, r.statistics.Counts 0) ∧
    optimise {} vast = .error (.tooManyDigits 4300) := by
  refine ⟨by decide +kernel, ?_⟩
  have hm : (optimise {} vast).map (fun _ => ()) =
    .error (.tooManyDigits 4300) := by decide +kernel
  cases ho : optimise {} vast <;> simp_all [Except.map]

end QueryPlanner
