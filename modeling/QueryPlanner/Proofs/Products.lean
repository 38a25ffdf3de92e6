import Mathlib.Algebra.Order.BigOperators.Ring.List
import QueryPlanner.Proofs.Pushdown
import QueryPlanner.Proofs.Repetition.Leaves
import QueryPlanner.Proofs.Termination

namespace QueryPlanner

open Run (Meets)
open Reshaping (ofPlan)
open Unlimited

namespace Relation

variable {rs ss : List NamedRelation}

def crossed (rs : List NamedRelation) : Relation :=
  of (rs.map (·.statistics.tupleCount)).prod (rs.flatMap (·.statistics.attributes))

theorem crossed_singleton (r : NamedRelation) : crossed [r] = r.statistics := by
  simp only [crossed, List.map_singleton, List.prod_singleton, List.flatMap_singleton]
  exact of_self r.statistics

theorem attributes_crossed (h : ∀ r ∈ rs, 1 ≤ r.statistics.tupleCount) :
    (crossed rs).attributes = rs.flatMap (·.statistics.attributes) := by
  have hpos : 0 < (rs.map (·.statistics.tupleCount)).prod :=
    CanonicallyOrderedAdd.list_prod_pos.mpr (List.forall_mem_map.mpr h)
  refine (List.map_congr_left fun a ha => ?_).trans (List.map_id' _)
  obtain ⟨r, hr, ha⟩ := List.mem_flatMap.mp ha
  have hle : r.statistics.tupleCount ≤ (rs.map (·.statistics.tupleCount)).prod :=
    Nat.le_of_dvd hpos (List.dvd_prod (List.mem_map_of_mem hr))
  exact Attribute.cappedAt_of_le ((r.statistics.capped a ha).trans (by exact_mod_cast hle))

theorem product_crossed (h : ∀ r ∈ rs ++ ss, 1 ≤ r.statistics.tupleCount) :
    (crossed rs).product (crossed ss) = crossed (rs ++ ss) := by
  obtain ⟨hr, hs⟩ := List.forall_mem_append.mp h
  have hp : (crossed rs).tupleCount * (crossed ss).tupleCount = (crossed (rs ++ ss)).tupleCount := by
    simp [crossed]
  rw [product, hp, attributes_crossed hr, attributes_crossed hs, ← List.flatMap_append]
  simp only [crossed, of_tupleCount]

theorem agrees_crossed (h : rs.Perm ss) : (crossed rs).agrees (crossed ss) := by
  have ht : (rs.map (·.statistics.tupleCount)).prod = (ss.map (·.statistics.tupleCount)).prod :=
    (h.map _).prod_eq
  refine agrees_iff.mpr ⟨ht, ?_⟩
  rw [crossed, crossed, ht]
  exact (h.flatMap_right _).map _

end Relation

namespace Plan

variable {ν : Type} {tree : Plan ν} {l r plan : Plan Relation}

structure Crosses (plan : Plan Relation) : Prop where
  output : plan.output = .crossed plan.scans
  tuples : ∀ r ∈ plan.scans, 1 ≤ r.statistics.tupleCount
  named  : NamedRelation.placeholder ∉ plan.scans
  shown  : plan.isPlaceholder = false

theorem crosses_scanning {r : NamedRelation} (ht : 1 ≤ r.statistics.tupleCount)
    (hn : r.isPlaceholder = false) : (scanning r).Crosses where
  output := (Relation.crossed_singleton r).symm
  tuples := List.forall_mem_singleton.mpr ht
  named  := fun h => by
    obtain rfl := List.mem_singleton.mp h
    exact Bool.noConfusion hn
  shown  := hn

theorem Crosses.multiplying (hl : l.Crosses) (hr : r.Crosses) : (multiplying l r).Crosses where
  output := by
    have h := List.forall_mem_append.mpr ⟨hl.tuples, hr.tuples⟩
    exact (congrArg₂ Relation.product hl.output hr.output).trans (Relation.product_crossed h)
  tuples := List.forall_mem_append.mpr ⟨hl.tuples, hr.tuples⟩
  named  := fun h => (List.mem_append.mp h).elim hl.named hr.named
  shown  := rfl

theorem Crosses.agrees (hl : l.Crosses) (hr : r.Crosses) (h : l.contents = r.contents) :
    l.output.agrees r.output := by
  have keep {plan : Plan Relation} (hp : plan.Crosses) :
      plan.scans.filter (· ≠ .placeholder) = plan.scans :=
    List.filter_eq_self.mpr fun s hs => decide_eq_true fun he => hp.named (he ▸ hs)
  have hs := congrArg (Multiset.filterMap Sum.getLeft?) h
  rw [relations_of_contents, relations_of_contents, keep hl, keep hr] at hs
  rw [hl.output, hr.output]
  exact Relation.agrees_crossed (Multiset.coe_eq_coe.mp hs)

theorem estimate_products (ht : tree.IsProducts)
    (hs : ∀ r ∈ tree.scans, 1 ≤ r.statistics.tupleCount ∧ r.isPlaceholder = false) :
    ∃ e, tree.estimate = .ok e ∧ e.scans = tree.scans ∧ e.Crosses ∧
      e.contents = (tree.scans.map fun r => (scanning r).contents).sum := by
  induction tree
  case scan r =>
    obtain ⟨ht, hn⟩ := hs r (List.mem_singleton_self r)
    exact ⟨_, rfl, rfl, crosses_scanning ht hn, (add_zero _).symm⟩
  case product l r hl hr =>
    obtain ⟨hsl, hsr⟩ := List.forall_mem_append.mp hs
    obtain ⟨e, he, hes, hec, hek⟩ := hl ht.left hsl
    obtain ⟨f, hf, hfs, hfc, hfk⟩ := hr ht.right hsr
    refine ⟨.multiplying e f, by simp [estimate, he, hf, bind, Except.bind, pure, Except.pure],
      congrArg₂ (· ++ ·) hes hfs, hec.multiplying hfc, ?_⟩
    rw [contents_multiplying, hek, hfk, scans, List.map_append, List.sum_append]
  all_goals exact ht.elim

end Plan

variable {ν : Type} {tree : Plan ν} {options : Options} {leaves : List Handle} {m m' : Moment}
variable {budget : Multiset Part} {q : Plan Relation} {qs : List (Plan Relation)}

namespace Moment

open Components

-- A search on products alone, of which nothing is lost.
structure Crosses (leaves : List Handle) (budget : Multiset Part) (m : Moment) : Prop where
  demand   : m.demand = {}
  due      : m.due = []
  products : ∀ k ∈ m.candidates, k.predicate = none
  plans    : ∀ plan ∈ m.components.plans, plan.Crosses
  contents : m.components.contents leaves = budget

namespace Crosses

theorem step (x : m.Crosses leaves budget) (s : m.Sound leaves) (h : m.Step options leaves m') :
    m'.Crosses leaves budget := by
  cases h
  case select hd _ _ => exact absurd (hd.symm.trans x.due) (List.cons_ne_nil _ _)
  case settle        =>
    have hc : m.candidates.filterMap m.components.collapsed? = [] :=
      List.filterMap_eq_nil_iff.mpr fun k hk => by
        simp [collapsed?, x.products k hk]
    exact { x with
      due      := by rw [settled, hc, sortByText_nil]
      products := fun k hk => x.products k (List.mem_of_mem_filter hk) }
  case connect => exact { x with
    products := fun k hk => (Candidate.mem_pairs (nodup_live ..) hk).left }
  case combine best plan _ ho hch =>
    have hb := hch.first.mem
    -- A candidate without a predicate multiplies its sides, and nothing is released for it.
    have hn := x.products best hb
    obtain ⟨l, r, hl, hr, hbuilt⟩ := built?_eq_some_iff.mp hch.built
    obtain rfl : plan = .multiplying l r := by simpa [hn] using hbuilt
    have hd : best.released m.demand = m.demand := by simp [Candidate.released, hn]
    have hne := (isOutstanding_iff.mp (ho best hb)).right.right
    have hsum := contents_takeOver s.orderly.formed s.orderly.inside (List.cons_ne_nil _ _)
      (s.sides best hb) (.multiplying l r)
    rw [hd, Demand.narrowed, if_pos (by rw [x.demand])]
    exact {
      demand   := x.demand
      due      := rfl
      products := fun k hk => x.products k (List.mem_of_mem_erase hk)
      plans    := fun plan hp => by
        rw [plans_takeOver, Array.mem_push] at hp
        cases hp
        case inl hp => exact x.plans plan hp
        case inr hp => exact hp ▸ (x.plans l hl.mem).multiplying (x.plans r hr.mem)
      contents := by
        simp only [List.map_cons, List.map_nil, List.toFinset_cons, List.toFinset_nil,
          insert_empty_eq, Finset.sum_pair hne, hl.contentsAt, hr.contentsAt,
          Plan.contents_multiplying] at hsum
        exact (Multiset.add_right_inj.mp ((add_comm _ _).trans (hsum.trans (add_comm _ _)))).trans x.contents
    }

theorem reaches (x : m.Crosses leaves budget) (s : m.Sound leaves) (h : m.Reaches options leaves m') :
    m'.Crosses leaves budget := by
  induction h
  case refl              => exact x
  case tail hr hn hi     => exact hi.step (s.reaches hr) (next_step hn)

theorem next_ne_error (x : m.Crosses leaves budget) (s : m.Sound leaves) {e : Failure} :
    m.next options leaves ≠ .error e := fun h =>
  s.next_failure (F := fun _ => False) (fun hd => absurd x.due hd)
    (fun k hk hp => absurd (x.products k hk) hp) h

theorem not_isEliminated (x : m.Crosses leaves budget) (h : Handle) :
    m.components.isEliminated h = false := by
  rw [Bool.eq_false_iff]
  intro he
  obtain ⟨plan, hp, hpl⟩ := isEliminated_iff.mp he
  exact Bool.noConfusion ((x.plans plan hp.mem).shown.symm.trans hpl)

theorem ends (x : m.Crosses leaves budget) (s : m.Sound leaves) (hl : leaves ≠ [])
    (he : m.Ends options leaves q) : q.Crosses ∧ q.contents = budget := by
  obtain ⟨root, hroot⟩ := (s.all he.last fun h _ => x.not_isEliminated h).right
  obtain ⟨h, hh⟩ := List.exists_mem_of_ne_nil _ hl
  have hr : m.components.roots leaves = {root} := Finset.eq_singleton_iff_unique_mem.mpr
    ⟨hroot h hh ▸ owner_mem_roots hh, fun x hx => by
      obtain ⟨k, hk, rfl⟩ := List.mem_map.mp (List.mem_toFinset.mp hx)
      exact hroot k hk⟩
  have hm : root ∈ m.components.roots leaves := hr ▸ Finset.mem_singleton_self root
  have hq := he.left root (mem_live.mpr ⟨hm, x.not_isEliminated root⟩)
  refine ⟨x.plans q hq.mem, ?_⟩
  rw [← x.contents, Components.contents, hr, Finset.sum_singleton, ← hq.contentsAt,
    s.orderly.formed.owner_of_mem_roots hm]

end Crosses

theorem opening_of_tuples {d : Demand} (hj : d.joins = []) (ht : ∀ q ∈ qs, 0 < q.tupleCount) :
    opening qs d = .ok {
      value  := (List.range qs.length, .ofLeaves qs,
        Candidate.products [] (List.range qs.length) (List.range qs.length))
      demand := d
      events := [] } := by
  have hall := filter_hasTuples_ofLeaves ht
  simp [opening, selfJoins, Run.demand, bind, Run.bind, pure, Run.pure, hj, sortByText_nil,
    joinCandidates, hall]

theorem crosses_start (hq : ∀ q ∈ qs, q.Crosses) :
    (start (.ofLeaves qs) (Candidate.products [] (List.range qs.length) (List.range qs.length)) {}).Crosses
      (List.range qs.length) (qs.map Plan.contents).sum where
  demand   := rfl
  due      := rfl
  products := fun k hk => (Candidate.mem_products hk).left
  plans    := fun plan hp => hq plan (by simpa [start, ofLeaves] using hp)
  contents := contents_ofLeaves qs

end Moment

theorem joinOrder_crosses (options : Options) (root : Operator) (hn : qs ≠ [])
    (hq : ∀ q ∈ qs, q.Crosses ∧ 0 < q.tupleCount) :
    Meets (fun _ => False) (joinOrder options root qs) {} fun q d' =>
      d' = {} ∧ q.Crosses ∧ q.contents = (qs.map Plan.contents).sum := by
  have ho := Moment.opening_of_tuples (d := {}) rfl fun q hm => (hq q hm).right
  have course {leaves m} (hm : Moment.Reached options qs {} leaves m) :
      leaves = List.range qs.length ∧ m.Crosses leaves (qs.map Plan.contents).sum := by
    obtain ⟨o, ho', hl, hr⟩ := hm
    obtain rfl := Except.ok.inj (ho.symm.trans ho')
    have s := (opening_sound qs {}).elim ho
    subst hl
    exact ⟨rfl, (Moment.crosses_start fun q hm => (hq q hm).left).reaches s hr⟩
  refine ((Moment.joinOrder_follows options root {} hn).weaken fun e he => ?_).mono fun q d' h => ?_
  · obtain ⟨_, he | ⟨leaves, m, hm, he⟩⟩ := he
    · cases ho.symm.trans he
    · exact (course hm).right.next_ne_error hm.sound he
  · obtain ⟨leaves, m, hm, hd, hends⟩ := h
    obtain ⟨hl, x⟩ := course hm
    have hl : leaves ≠ [] := by simpa [hl] using hn
    exact ⟨hd ▸ x.demand, x.ends hm.sound hl hends⟩

theorem placeScan_idle (r : NamedRelation) :
    Meets (fun _ => False) (placeScan r) {} fun q d' => d' = {} ∧ q = .scanning r := by
  simp [Meets, placeScan, narrow, Run.demand, bind, Run.bind, pure, Run.pure, sortByText_nil]

section Products

variable (ht : tree.IsProducts)
variable (hs : ∀ r ∈ tree.scans, 1 ≤ r.statistics.tupleCount ∧ r.isPlaceholder = false)
include ht hs

theorem leaves_products (options : Options) :
    Meets (fun _ => False) (ofPlan options tree).leaves {} fun qs d' =>
      d' = {} ∧ qs = tree.scans.map .scanning := by
  induction tree
  case scan r =>
    have hr : (Plan.scanning r).tupleCount ≠ 0 := by
      have := (hs r (List.mem_singleton_self r)).left
      exact Nat.one_le_iff_ne_zero.mp this
    refine (placeScan_idle r).bind ?_
    rintro _ _ ⟨rfl, rfl⟩
    rw [Reshaping.keepLeaf, if_neg hr]
    exact Run.meets_pure ⟨rfl, rfl⟩
  case product l r hl hr =>
    obtain ⟨hsl, hsr⟩ := List.forall_mem_append.mp hs
    refine (hl ht.left hsl).bind ?_
    rintro _ _ ⟨rfl, rfl⟩
    refine (hr ht.right hsr).bind ?_
    rintro _ _ ⟨rfl, rfl⟩
    exact Run.meets_pure ⟨rfl, (List.map_append ..).symm⟩
  all_goals exact ht.elim

theorem reshape_products (options : Options) :
    Meets (fun _ => False) (reshape options tree) {} fun q d' => d' = {} ∧ q.Crosses ∧
      q.contents = (tree.scans.map fun r => (Plan.scanning r).contents).sum := by
  cases tree
  case scan r =>
    obtain ⟨ht, hn⟩ := hs r (List.mem_singleton_self r)
    refine (placeScan_idle r).mono ?_
    rintro _ _ ⟨rfl, rfl⟩
    exact ⟨rfl, Plan.crosses_scanning ht hn, (add_zero _).symm⟩
  case product n l r =>
    refine (leaves_products ht hs options).bind ?_
    rintro _ _ ⟨rfl, rfl⟩
    have hq : ∀ q ∈ (Plan.product n l r).scans.map Plan.scanning, q.Crosses ∧ 0 < q.tupleCount :=
      List.forall_mem_map.mpr fun s hm =>
        ⟨Plan.crosses_scanning (hs s hm).left (hs s hm).right, (hs s hm).left⟩
    have hne : (Plan.product n l r).scans.map Plan.scanning ≠ [] :=
      mt List.map_eq_nil_iff.mp (Plan.product n l r).scans_ne_nil
    refine (joinOrder_crosses options .product hne hq).mono ?_
    rw [List.map_map]
    exact fun _ _ h => h
  all_goals exact ht.elim

-- Products may be reordered at will. The result is what it was estimated to be, up to the order of its
-- attributes.
theorem optimise_products (options : Options) :
    ∃ o e, optimise options tree = .ok o ∧ tree.estimate = .ok e ∧ o.value.output.agrees e.output ∧
      e.tupleCount = (tree.scans.map (·.statistics.tupleCount)).prod ∧
      e.output.attributes = tree.scans.flatMap (·.statistics.attributes) := by
  obtain ⟨e, he, hes, hec, hek⟩ := Plan.estimate_products ht hs
  obtain ⟨r, hr, hd, hrc, hrk⟩ := (reshape_products ht hs options).returns
  refine ⟨_, e, optimise_eq_ok_iff.mpr ⟨r, hr, .inl ⟨hd ▸ rfl, rfl⟩⟩, he,
    hrc.agrees hec (hrk.trans hek.symm), ?_, ?_⟩
  · rw [Plan.tupleCount, hec.output, hes]
    rfl
  · rw [hec.output, Relation.attributes_crossed hec.tuples, hes]

end Products

-- The smallest two relations are multiplied first. Value counts may even be below zero.
theorem optimise_products_threefold :
    let scan (n : String) (k : Nat) (v : Int) : Plan Unit :=
      .scan () { name := n, statistics := .of k [⟨n, v⟩] }
    let tree : Plan Unit := .product () (.product () (scan "R" 8 3) (scan "S" 2 (-1))) (scan "T" 1 0)
    tree.IsProducts ∧ (∀ r ∈ tree.scans, 1 ≤ r.statistics.tupleCount ∧ r.isPlaceholder = false) ∧
      ∃ o e, optimise {} tree = .ok o ∧ tree.estimate = .ok e ∧ o.value.output.agrees e.output ∧
        e.tupleCount = 16 ∧ e.output.attributes = [⟨"R", 3⟩, ⟨"S", -1⟩, ⟨"T", 0⟩] := by
  intro scan tree
  have ht : tree.IsProducts := ⟨⟨trivial, trivial⟩, trivial⟩
  have hs : ∀ r ∈ tree.scans, 1 ≤ r.statistics.tupleCount ∧ r.isPlaceholder = false := by
    decide +kernel
  obtain ⟨o, e, ho, he, ha, hn, hv⟩ := optimise_products ht hs {}
  exact ⟨ht, hs, o, e, ho, he, ha, hn.trans (by decide +kernel), hv.trans (by decide +kernel)⟩

end QueryPlanner
