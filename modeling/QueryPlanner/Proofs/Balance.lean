import QueryPlanner.Proofs.Consistency
import QueryPlanner.Proofs.JoinOrder.Carried
import QueryPlanner.Proofs.Reshape

namespace QueryPlanner

open Candidate (predicates)
open Predicate (mentions)
open Run (Meets)
open Unlimited

variable {ν : Type} {G : Plan Relation → Prop} {mode : Bool} {kept : Multiset String} {vain : Nat}
variable {budget : Multiset Part} {qs : List (Plan Relation)} {q : Plan Relation} {d d' : Demand}
variable {options : Options} {plan : Plan ν} {names : List String}

namespace Requirements

def uses (r : Requirements) : Multiset String :=
  (r.counts.entries.flatMap fun e => List.replicate e.2 e.1 : List String)

theorem count_uses (r : Requirements) (n : String) : r.uses.count n = r.count n := by
  obtain ⟨⟨es, hn⟩, _⟩ := r
  simp only [uses, count, Registry.get?, Multiset.coe_count]
  induction es
  case nil          => rfl
  case cons e es hi =>
    obtain ⟨he, hn⟩ := List.nodup_cons.mp hn
    rw [List.flatMap_cons, List.count_append, List.count_replicate, hi hn]
    by_cases h : e.1 = n
    case neg => simp [h]
    case pos =>
      have : es.find? (·.1 = n) = none := List.find?_eq_none.mpr fun x hx hxn =>
        he (List.mem_map.mpr ⟨x, hx, (of_decide_eq_true hxn).trans h.symm⟩)
      simp [h, this]

end Requirements

-- Every name is required exactly as often as it stands in `kept` and in pending predicates. So many
-- uses have been given up in vain.
structure Demand.Balanced (d : Demand) (kept : Multiset String) (vain : Nat) : Prop where
  count     : ∀ n, d.required.count n = (kept + mentions d.pending).count n
  overdrawn : d.required.overdrawn = vain

namespace Demand.Balanced

theorem covers (h : d.Balanced kept vain) : d.Covers kept :=
  fun n => (h.count n).ge

theorem empty : Demand.Balanced {} 0 0 :=
  ⟨fun _ => rfl, rfl⟩

theorem of_covers (h : d.Covers 0) : ∃ kept, d.Balanced kept d.required.overdrawn := by
  have hle : mentions d.pending ≤ d.required.uses := Multiset.le_iff_count.mpr fun n => by
    simpa [Requirements.count_uses] using h n
  refine ⟨d.required.uses - mentions d.pending, fun n => ?_, rfl⟩
  rw [tsub_add_cancel_of_le hle, Requirements.count_uses]

theorem overdrawn_requireAll (d : Demand) (names : List String) :
    (d.requireAll names).required.overdrawn = d.required.overdrawn := by
  induction names generalizing d
  case nil         => rfl
  case cons _ _ hi => exact hi _

theorem overdrawn_releaseAll (hn : ∀ n, names.count n ≤ d.required.count n) :
    (d.releaseAll names).required.overdrawn = d.required.overdrawn := by
  induction names generalizing d
  case nil            => rfl
  case cons m names hi =>
    have hm : d.required.count m ≠ 0 := by
      have := hn m
      rw [List.count_cons_self] at this
      omega
    refine (hi fun n => ?_).trans (if_neg hm)
    have := hn n
    rw [release, Requirements.count_decrement]
    by_cases he : n = m
    case pos => rw [he, List.count_cons_self] at this; rw [he, if_pos rfl]; omega
    case neg => rw [List.count_cons_of_ne (Ne.symm he)] at this; rw [if_neg he]; omega

theorem requireAll (h : d.Balanced kept vain) (names : List String) :
    (d.requireAll names).Balanced (names + kept) vain where
  count n   := by
    rw [count_requireAll, h.count, pending_requireAll]
    simp only [Multiset.count_add, Multiset.coe_count]
    omega
  overdrawn := (overdrawn_requireAll d names).trans h.overdrawn

theorem releaseAll (h : d.Balanced (names + kept) vain) : (d.releaseAll names).Balanced kept vain where
  count n   := by
    rw [count_releaseAll, h.count, pending_releaseAll]
    simp only [Multiset.count_add, Multiset.coe_count]
    omega
  overdrawn := (overdrawn_releaseAll fun n => by
    rw [h.count]
    simp only [Multiset.count_add, Multiset.coe_count]
    omega).trans h.overdrawn

theorem defer (h : d.Balanced kept vain) (p : Predicate) : (d.defer p).Balanced kept vain where
  count n   := by
    rw [defer_required, pending_defer, (h.requireAll p.attributes).count, Predicate.mentions_cons,
      pending_requireAll, add_left_comm, add_assoc]
  overdrawn := by
    rw [defer_required]
    exact (h.requireAll p.attributes).overdrawn

theorem take {ps : Multiset Predicate} (h : d.Balanced kept vain) (hp : d.pending = ps + d'.pending)
    (hr : d'.required = d.required) : d'.Balanced (mentions ps + kept) vain where
  count n   := by
    rw [hr, h.count, hp, Predicate.mentions_add, add_left_comm, add_assoc]
  overdrawn := hr ▸ h.overdrawn

theorem claim {p : JoinPredicate} (h : d.Balanced kept vain) (hp : p ∈ d.joins) :
    Demand.Balanced { d with joins := d.joins.erase p } (mentions {.join p} + kept) vain :=
  h.take (pending_erase_join hp) rfl

end Demand.Balanced

def Plan.Grounded (q : Plan Relation) : Prop :=
  q.Consistent ∧ ∀ r ∈ q.scans, r.isPlaceholder → r.statistics.tupleCount = 0

namespace Plan.Grounded

theorem scanning {r : NamedRelation} (h : r.isPlaceholder → r.statistics.tupleCount = 0) :
    (Plan.scanning r).Grounded :=
  ⟨rfl, by simpa [Plan.scanning, Plan.scans] using h⟩

theorem tupleCount_eq_zero (h : q.Grounded) (hq : q.isPlaceholder) : q.tupleCount = 0 := by
  obtain ⟨hc, hs⟩ := h
  cases q
  case scan s r =>
    cases hc
    exact hs r (List.mem_singleton_self r) hq
  all_goals cases hq

end Plan.Grounded

theorem PlanInvariant.grounded : PlanInvariant False Plan.Grounded (fun _ => True) :=
  consistent.and (scanned fun _ => rfl)

def Plan.Hollow (q : Plan Relation) : Prop :=
  q.isPlaceholder → ∀ n, q.output.has n = false

theorem Plan.Hollow.narrowed (h : q.isPlaceholder = false) (d : Demand) : (d.narrowed q).Hollow := by
  intro hp n
  have hn := d.narrowed_narrowed q
  generalize d.narrowed q = q' at hn hp
  cases hn
  case kept    => simp [h] at hp
  case emptied => rfl
  case cut     => cases hp

namespace Components

variable {leaves : List Handle} {c : Components} {ks : List Candidate}

structure Balanced (kept : Multiset String) (vain : Nat) (leaves : List Handle) (c : Components)
    (ks : List Candidate) (d : Demand) : Prop where
  demand : d.Balanced (kept + mentions (predicates ks)) vain
  hollow : c.Each Plan.Hollow leaves

theorem Balanced.perm {ls : List Candidate} (hp : ks.Perm ls) (b : Balanced kept vain leaves c ks d) :
    Balanced kept vain leaves c ls d :=
  ⟨Candidate.predicates_perm hp ▸ b.demand, b.hollow⟩

theorem balanced_carried (leaves : List Handle) :
    Carried False G leaves mode kept budget (Balanced kept vain leaves) where
  perm           := Balanced.perm
  products hn hj := by
    refine ⟨?_, hj.hollow⟩
    rw [Candidate.predicates_append, Candidate.predicates_of_none hn, add_zero]
    exact hj.demand
  settle {c ks d} u hj := by
    -- A component that is gone provides nothing.
    have gone {k p} (hk : k ∈ ks) (hp : k.predicate = some p) {h n} (hh : h ∈ k.sides)
        (hn : c.provides n h) : c.isEliminated h = false := by
      rw [Bool.eq_false_iff, Ne, isEliminated_iff]
      rintro ⟨plan, hs, he⟩
      have := hj.hollow.of_roots (u.sides k hk h hh) hs he n
      simp [hs.has hn] at this
    have hp : Retains True (predicates ks) (predicates (c.settled ks)) := by
      refine retains_settled ks fun _ k hk p hp => ?_
      obtain ⟨hl, hr⟩ := u.provided k hk p hp
      exact ⟨gone hk hp k.left_mem_sides hl, gone hk hp k.right_mem_sides hr⟩
    exact ⟨hp.right trivial ▸ hj.demand, hj.hollow⟩
  round {c k ks plan d c' d'} u hj r _ := by
    refine ⟨?_, hj.hollow.round r u.inside (.narrowed r.combined.isPlaceholder_eq_false d')
      fun _ _ _ _ _ => id⟩
    have hd := hj.demand
    rw [r.demand, Candidate.released]
    cases hp : k.predicate
    case none   =>
      have : predicates (k :: ks) = predicates ks := by simp [predicates, hp]
      exact this ▸ hd
    case some p =>
      have : predicates (k :: ks) = .join p ::ₘ predicates ks := by simp [predicates, hp]
      rw [this, Predicate.mentions_cons, add_left_comm] at hd
      exact hd.releaseAll

end Components

open Components

theorem joinOrder_balanced {root : Operator} (y : Yields False Plan.Grounded mode kept budget qs d)
    (h : d.Balanced kept vain) :
    Meets (fun _ => True) (joinOrder options root qs) d fun _ d' => d'.Balanced kept vain := by
  refine joinOrder_carries (H := Balanced kept vain) .grounded False.elim ?claim
    Balanced.perm id balanced_carried y ?start ?finished (fun _ => h)
  case claim =>
    intro leaves c ks d p h k u hj _ hp
    have hd := hj.demand.claim hp
    have : predicates ({ left := h, right := k, predicate := some p } :: ks) =
      {.join p} + predicates ks := by simp [predicates]
    rw [add_left_comm, ← Predicate.mentions_add, ← this] at hd
    exact ⟨hd, hj.hollow⟩
  case finished =>
    intro leaves c d q u hj _
    simpa [predicates] using hj.demand
  case start =>
    refine ((selfJoins_meets .grounded False.elim (.ofLeaves y) (owner_ofLeaves qs)).and
      (selfJoins_carries (K := fun _ _ d => d.Balanced kept vain) .grounded False.elim (fun hd _ => hd) ?_
        (.ofLeaves y) (owner_ofLeaves qs) h)).mono ?_
    case refine_1 =>
      rintro p _ c d h q c' _ d' hd hp rfl _ r
      have hd := hd.claim hp
      rw [← Multiset.cons_zero, Predicate.mentions_cons, Predicate.mentions_zero, add_zero] at hd
      exact r.demand ▸ hd.releaseAll
    case refine_2 =>
      rintro c d' ⟨⟨u, _⟩, hd⟩
      refine ⟨by simpa [predicates] using hd, fun h hh plan hp hq => ?_⟩
      -- The leaves that are left have tuples.
      obtain ⟨plan', hp', ht⟩ := hasTuples_iff.mp (List.mem_filter.mp hh).right
      obtain rfl := hp.unique hp'
      exact absurd ((u.good plan hp.mem).tupleCount_eq_zero hq) ht.ne'

theorem placeScan_balanced (r : NamedRelation) (h : d.Balanced kept vain) :
    Meets (fun _ => True) (placeScan r) d fun _ d' => d'.Balanced kept vain := by
  refine (placeScan_result r d).mono ?_
  rintro _ _ ⟨_, rfl⟩
  have placed {α : Type} [DecidableEq α] {xs ys : List α} (h : xs.Subperm ys) :
      (ys : Multiset α) = xs + (ys.diff xs : List α) := by
    rw [← Multiset.coe_sub, add_tsub_cancel_of_le (Multiset.coe_le.mpr h)]
  have hv : (r.values d).Subperm d.selects :=
    List.filter_sublist.subperm.trans (sortByText_perm ..).subperm
  have hj : (r.equations d).Subperm d.joins :=
    List.filter_sublist.subperm.trans (sortByText_perm ..).subperm
  have hd : Demand.Balanced
      { d with selects := d.selects.diff (r.values d), joins := d.joins.diff (r.equations d) }
      (mentions ((r.values d).map .value ++ (r.equations d).map .join : List Predicate) + kept) vain := by
    refine h.take ?_ rfl
    simp only [Demand.pending, ← Multiset.coe_add, ← Multiset.map_coe]
    conv_lhs => rw [placed hv, placed hj, Multiset.map_add, Multiset.map_add]
    ac_rfl
  have hm : mentions ((r.values d).map .value ++ (r.equations d).map .join : List Predicate) =
      ((r.values d).map (·.name) ++ (r.equations d).flatMap (·.attributes) : List String) := by
    rw [mentions, Multiset.coe_bind, List.flatMap_append, List.flatMap_map, List.flatMap_map,
      List.map_eq_flatMap]
    rfl
  rw [hm] at hd
  exact hd.releaseAll

theorem underProjection_balanced {input : Run (Plan Relation)}
    (h : Meets (fun _ => True) input { d.requireAll names with narrowing := options.pushProjections }
      fun _ d' => d'.Balanced (names + kept) vain) :
    Meets (fun _ => True) (underProjection options names input) d fun _ d' => d'.Balanced kept vain := by
  refine Run.meets_demand_bind <| Run.meets_modify_bind <| h.bind fun q d' hd => ?_
  refine (narrow_result q d').bind ?_
  rintro q' _ ⟨rfl, _⟩
  exact Run.meets_modify_bind (Run.meets_pure (Demand.Balanced.releaseAll ⟨hd.count, hd.overdrawn⟩))

theorem steps_balanced (options : Options) (vain : Nat) : Reshaping.Steps options Plan.Grounded
    (fun _ => True) (fun kept d => d.Balanced kept vain) (fun _ => True) where
  defer p h        := h.defer p
  scan {_ _ r} _ h := (placeScan_balanced r h).mono fun _ _ h => ⟨trivial, h⟩
  enter names h    := ⟨(h.requireAll names).count, (h.requireAll names).overdrawn⟩
  project h        := (underProjection_balanced (h.mono fun _ _ h => h.right)).mono
    fun _ _ h => ⟨trivial, h⟩
  search y h _     := (joinOrder_balanced y h).mono fun _ _ h => ⟨trivial, h⟩

theorem reshape_balanced (options : Options) (plan : Plan ν)
    (hs : ∀ r ∈ plan.scans, r.isPlaceholder → r.statistics.tupleCount = 0) (h : d.Balanced kept vain) :
    Meets (fun _ => True) (reshape options plan) d fun _ d' => d'.Balanced kept vain := by
  have hg (r) (hr : r ∈ plan.scans) : (Plan.scanning r).Grounded := .scanning (hs r hr)
  have hk := Reshaping.ofPlan_keeps (steps_balanced options vain) .grounded plan hg h.covers h
  exact hk.left.mono fun _ _ h => h.right

-- The requirements change with the pending predicates and with nothing else, and no use is given up that
-- was not there. So a whole run ends with what its unplaced predicates require.
theorem requirements_follow_pending (options : Options) (plan : Plan ν)
    (hs : ∀ r ∈ plan.scans, r.statistics.Counts 0)
    (he : ∀ r ∈ plan.scans, r.isPlaceholder → r.statistics.tupleCount = 0) :
    (∀ d : Demand, (∀ n, (mentions d.pending).count n ≤ d.required.count n) →
      ∃ o, reshape options plan d = .ok o ∧
        (∀ n, (o.demand.required.count n - d.required.count n : Int) =
          (mentions o.demand.pending).count n - (mentions d.pending).count n) ∧
        o.demand.narrowing = d.narrowing ∧ o.demand.required.overdrawn = d.required.overdrawn) ∧
    ∃ o, optimise options plan = .ok o ∧
      (∀ n, o.demand.required.count n = (mentions o.demand.pending).count n) ∧
      o.demand.required.overdrawn = 0 := by
  have reshaped {d : Demand} (h : d.Covers 0) {kept vain} (hb : d.Balanced kept vain) :
      ∃ o, reshape options plan d = .ok o ∧ o.demand.narrowing = d.narrowing ∧
        o.demand.Balanced kept vain := by
    have takes : Meets (fun _ => False) (reshape options plan) d _ :=
      (Reshaping.ofPlan_takes .nonneg plan hs nofun nofun h rfl).plan
    obtain ⟨o, ho, y⟩ := takes.returns
    exact ⟨o, ho, y.narrows, (reshape_balanced options plan he hb).elim ho⟩
  constructor
  case left =>
    intro d h
    have hc : d.Covers 0 := fun n => by simpa using h n
    obtain ⟨kept, hb⟩ := Demand.Balanced.of_covers hc
    obtain ⟨o, ho, hn, hb'⟩ := reshaped hc hb
    refine ⟨o, ho, fun n => ?_, hn, hb'.overdrawn⟩
    rw [hb.count, hb'.count, Multiset.count_add, Multiset.count_add]
    omega
  case right =>
    obtain ⟨r, hr, _, hb⟩ := reshaped Demand.covers_empty .empty
    obtain ⟨o, ho, hd⟩ := optimise_of_reshape hr
    refine ⟨o, ho, fun n => ?_, hd ▸ hb.overdrawn⟩
    rw [hd, hb.count, zero_add]

-- The placeholder is scanned, and from above come a predicate that finds no place and another use of
-- one of its names.
def owing : Demand :=
  (Demand.defer {} (.join { occurrence := 0, left := "a", right := "d" })).requireAll ["a"]

def shelved : Plan Unit :=
  .select () (.join { occurrence := 1, left := "a", right := "c" })
    (.product () (.scan () { name := "r", statistics := .of 6 [⟨"a", 3⟩, ⟨"b", 0⟩] })
      (.product () (.scan () { name := "s", statistics := .of 4 [⟨"c", 4⟩] })
        (.scan () .placeholder)))

theorem requirements_follow_pending_shelved :
    ((∀ r ∈ shelved.scans, r.statistics.Counts 0 ∧ (r.isPlaceholder → r.statistics.tupleCount = 0)) ∧
      ∀ n, (mentions owing.pending).count n ≤ owing.required.count n) ∧
    (∃ o, reshape {} shelved owing = .ok o ∧
      (∀ n, (o.demand.required.count n - owing.required.count n : Int) =
        (mentions o.demand.pending).count n - (mentions owing.pending).count n) ∧
      o.demand.narrowing = owing.narrowing ∧
      o.demand.required.overdrawn = owing.required.overdrawn) ∧
    ∃ o, optimise {} shelved = .ok o ∧
      (∀ n, o.demand.required.count n = (mentions o.demand.pending).count n) ∧
      o.demand.required.overdrawn = 0 := by
  have hs : ∀ r ∈ shelved.scans, r.statistics.Counts 0 := by decide
  have he : ∀ r ∈ shelved.scans, r.isPlaceholder → r.statistics.tupleCount = 0 := by decide
  have hc : owing.Covers 0 := ((Demand.covers_empty.defer _).requireAll ["a"]).mono (Multiset.zero_le _)
  have hd : ∀ n, (mentions owing.pending).count n ≤ owing.required.count n := fun n => by simpa using hc n
  have h := requirements_follow_pending {} shelved hs he
  exact ⟨⟨fun r hr => ⟨hs r hr, he r hr⟩, hd⟩, h.left owing hd, h.right⟩

end QueryPlanner
