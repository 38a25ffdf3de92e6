import Mathlib.Data.Multiset.Bind
import QueryPlanner.Optimise.Demand
import QueryPlanner.Text.Basic

namespace QueryPlanner

def Predicate.mentions (ps : Multiset Predicate) : Multiset String :=
  ps.bind fun p => (p.attributes : Multiset String)

namespace Predicate

@[simp]
theorem mentions_zero : mentions 0 = 0 :=
  rfl

@[simp]
theorem mentions_cons (p : Predicate) (ps : Multiset Predicate) :
    mentions (p ::ₘ ps) = (p.attributes : Multiset String) + mentions ps :=
  Multiset.cons_bind ..

@[simp]
theorem mentions_add (ps qs : Multiset Predicate) : mentions (ps + qs) = mentions ps + mentions qs :=
  Multiset.add_bind ..

theorem mentions_mono {ps qs : Multiset Predicate} (h : ps ≤ qs) : mentions ps ≤ mentions qs := by
  obtain ⟨rs, rfl⟩ := Multiset.le_iff_exists_add.mp h
  exact mentions_add ps rs ▸ Multiset.le_add_right ..

theorem mem_mentions {ps : Multiset Predicate} {n : String} :
    n ∈ mentions ps ↔ ∃ p ∈ ps, n ∈ p.attributes := by
  simp [mentions]

end Predicate

namespace Demand

open Predicate

variable {d d' : Demand} {kept : Multiset String} {n : String}

def pending (d : Demand) : Multiset Predicate :=
  (d.selects.map Predicate.value : List Predicate) + (d.joins.map Predicate.join : List Predicate)

theorem mem_pending_join {p : JoinPredicate} : .join p ∈ d.pending ↔ p ∈ d.joins := by
  simp [pending]

theorem mem_pending_value {p : ValuePredicate} : .value p ∈ d.pending ↔ p ∈ d.selects := by
  simp [pending]

theorem sortByText_joins_le (d : Demand) :
    ((sortByText JoinPredicate.text d.joins).map Predicate.join : List Predicate) ≤ d.pending :=
  (Multiset.coe_le.mpr ((sortByText_perm ..).map _).subperm).trans (Multiset.le_add_left ..)

theorem sortByText_selects_le (d : Demand) :
    ((sortByText ValuePredicate.text d.selects).map Predicate.value : List Predicate) ≤ d.pending :=
  (Multiset.coe_le.mpr ((sortByText_perm ..).map _).subperm).trans (Multiset.le_add_right ..)

-- Every pending predicate has its attributes required, beside the names that are kept for others.
def Covers (d : Demand) (kept : Multiset String) : Prop :=
  ∀ n, (kept + mentions d.pending).count n ≤ d.required.count n

theorem Covers.isRequired (h : d.Covers kept) (hn : n ∈ kept + mentions d.pending) :
    d.required.isRequired n := by
  have := Multiset.count_pos.mpr hn
  simpa [Requirements.isRequired] using this.trans_le (h n)

theorem Covers.isRequired_of_pending {p : Predicate} (h : d.Covers kept) (hp : p ∈ d.pending) :
    ∀ n ∈ p.attributes, d.required.isRequired n := fun _ hn =>
  h.isRequired <| Multiset.mem_add.mpr <| .inr <| mem_mentions.mpr ⟨p, hp, hn⟩

theorem Covers.mono {kept' : Multiset String} (h : d.Covers kept) (hk : kept' ≤ kept) :
    d.Covers kept' :=
  fun n => (Multiset.count_le_of_le n (add_le_add_left hk _)).trans (h n)

theorem covers_empty : Covers {} 0 := by
  simp [Covers, pending]

theorem requireAll_eq (d : Demand) (names : List String) :
    d.requireAll names = { d with required := names.foldl Requirements.increment d.required } := by
  induction names generalizing d
  case nil         => rfl
  case cons _ _ hi => exact hi _

theorem releaseAll_eq (d : Demand) (names : List String) :
    d.releaseAll names = { d with required := names.foldl Requirements.decrement d.required } := by
  induction names generalizing d
  case nil         => rfl
  case cons _ _ hi => exact hi _

theorem releaseAll_append (d : Demand) (xs ys : List String) :
    d.releaseAll (xs ++ ys) = (d.releaseAll xs).releaseAll ys :=
  List.foldl_append ..

@[simp]
theorem pending_requireAll (d : Demand) (names : List String) :
    (d.requireAll names).pending = d.pending := by
  rw [requireAll_eq]; rfl

@[simp]
theorem pending_releaseAll (d : Demand) (names : List String) :
    (d.releaseAll names).pending = d.pending := by
  rw [releaseAll_eq]; rfl

@[simp]
theorem narrowing_releaseAll (d : Demand) (names : List String) :
    (d.releaseAll names).narrowing = d.narrowing := by
  rw [releaseAll_eq]

theorem count_requireAll (d : Demand) (names : List String) (n : String) :
    (d.requireAll names).required.count n = d.required.count n + names.count n := by
  induction names generalizing d
  case nil => rfl
  case cons m names hi =>
    rw [requireAll, List.foldl_cons, ← requireAll, hi, require, Requirements.count_increment]
    by_cases h : n = m
    case pos => simp only [h, if_true, List.count_cons_self]; omega
    case neg => simp only [h, if_false, List.count_cons_of_ne (Ne.symm h)]; omega

theorem count_releaseAll (d : Demand) (names : List String) (n : String) :
    (d.releaseAll names).required.count n = d.required.count n - names.count n := by
  induction names generalizing d
  case nil => rfl
  case cons m names hi =>
    rw [releaseAll, List.foldl_cons, ← releaseAll, hi, release, Requirements.count_decrement]
    by_cases h : n = m
    case pos => simp only [h, if_true, List.count_cons_self]; omega
    case neg => simp only [h, if_false, List.count_cons_of_ne (Ne.symm h)]; omega

theorem isRequired_of_releaseAll {names : List String}
    (h : (d.releaseAll names).required.isRequired n) : d.required.isRequired n := by
  simp only [Requirements.isRequired, decide_eq_true_eq, count_releaseAll] at *
  omega

theorem Covers.requireAll (h : d.Covers kept) (names : List String) :
    (d.requireAll names).Covers (names + kept) := by
  intro n
  have := h n
  simp only [pending_requireAll, count_requireAll, Multiset.count_add, Multiset.coe_count] at *
  omega

theorem Covers.releaseAll (names : List String) (h : d.Covers (names + kept)) :
    (d.releaseAll names).Covers kept := by
  intro n
  have := h n
  simp only [pending_releaseAll, count_releaseAll, Multiset.count_add, Multiset.coe_count] at *
  omega

theorem defer_required (d : Demand) (p : Predicate) :
    (d.defer p).required = (d.requireAll p.attributes).required := by
  cases p <;> rfl

theorem defer_narrowing (d : Demand) (p : Predicate) : (d.defer p).narrowing = d.narrowing := by
  cases p <;> rfl

theorem pending_defer (d : Demand) (p : Predicate) : (d.defer p).pending = p ::ₘ d.pending := by
  cases p
  case value p =>
    have : (d.deferSelect p).selects.map Predicate.value = d.selects.map .value ++ [.value p] :=
      List.map_append
    rw [defer, pending, this, ← Multiset.coe_add, Multiset.coe_singleton, ← Multiset.singleton_add]
    exact (add_assoc ..).trans (add_left_comm ..)
  case join p =>
    have : (d.deferJoin p).joins.map Predicate.join = d.joins.map .join ++ [.join p] :=
      List.map_append
    rw [defer, pending, this, ← Multiset.coe_add, Multiset.coe_singleton, ← Multiset.singleton_add,
      ← add_assoc]
    exact add_comm ..

theorem Covers.defer (h : d.Covers kept) (p : Predicate) : (d.defer p).Covers kept := by
  intro n
  have := h.requireAll p.attributes n
  rw [pending_defer, defer_required, mentions_cons]
  simpa only [pending_requireAll, add_left_comm, add_assoc] using this

def deferAll (d : Demand) (ps : List Predicate) : Demand :=
  ps.foldl defer d

theorem count_deferAll (d : Demand) (ps : List Predicate) (n : String) :
    (d.deferAll ps).required.count n =
      d.required.count n + (ps.flatMap Predicate.attributes).count n := by
  induction ps generalizing d
  case nil          => rfl
  case cons p ps hi =>
    rw [deferAll, List.foldl_cons, ← deferAll, hi, defer_required, count_requireAll,
      List.flatMap_cons, List.count_append]
    omega

theorem narrowing_deferAll (d : Demand) (ps : List Predicate) :
    (d.deferAll ps).narrowing = d.narrowing := by
  induction ps generalizing d
  case nil          => rfl
  case cons p ps hi => exact (hi _).trans (defer_narrowing d p)

theorem pending_deferAll (d : Demand) (ps : List Predicate) :
    (d.deferAll ps).pending = (ps : Multiset Predicate) + d.pending := by
  induction ps generalizing d
  case nil          => exact (zero_add _).symm
  case cons p ps hi =>
    rw [deferAll, List.foldl_cons, ← deferAll, hi, pending_defer, ← Multiset.cons_coe,
      Multiset.cons_add, Multiset.add_cons]

theorem Covers.deferAll (h : d.Covers kept) (ps : List Predicate) : (d.deferAll ps).Covers kept := by
  induction ps generalizing d
  case nil          => exact h
  case cons p ps hi => exact hi (h.defer p)

theorem pending_erase_select {p : ValuePredicate} (hp : p ∈ d.selects) :
    d.pending = .value p ::ₘ Demand.pending { d with selects := d.selects.erase p } := by
  simp only [pending, ← Multiset.cons_add, Multiset.cons_coe]
  congr 1
  exact Multiset.coe_eq_coe.mpr ((List.perm_cons_erase hp).map _)

theorem pending_erase_join {p : JoinPredicate} (hp : p ∈ d.joins) :
    d.pending = .join p ::ₘ Demand.pending { d with joins := d.joins.erase p } := by
  simp only [pending, ← Multiset.add_cons, Multiset.cons_coe]
  congr 1
  exact Multiset.coe_eq_coe.mpr ((List.perm_cons_erase hp).map _)

-- What a pending predicate has required stays required for it when it is taken off the lists.
theorem Covers.take {p : Predicate} (h : d.Covers kept) (hp : d.pending = p ::ₘ d'.pending)
    (hr : d'.required = d.required) : d'.Covers (p.attributes + kept) := by
  intro n
  have := h n
  rw [hp, mentions_cons] at this
  simpa only [hr, add_left_comm, add_assoc] using this

theorem placeSelect_of_mem {p : ValuePredicate} (hp : p ∈ d.selects) :
    d.placeSelect p = .ok ({ d with selects := d.selects.erase p }.releaseAll [p.name]) :=
  if_pos hp

theorem claimJoin_of_mem {p : JoinPredicate} (hp : p ∈ d.joins) :
    d.claimJoin p = .ok { d with joins := d.joins.erase p } :=
  if_pos hp

theorem placeJoin_of_mem {p : JoinPredicate} (hp : p ∈ d.joins) :
    d.placeJoin p = .ok ({ d with joins := d.joins.erase p }.releaseAll p.attributes) := by
  simp [placeJoin, claimJoin_of_mem hp, bind, Except.bind, pure, Except.pure, releaseJoin]

theorem mem_of_placeSelect {p : ValuePredicate} (h : d.placeSelect p = .ok d') : p ∈ d.selects := by
  by_contra hp
  simp [placeSelect, hp] at h

theorem mem_of_placeJoin {p : JoinPredicate} (h : d.placeJoin p = .ok d') : p ∈ d.joins := by
  by_contra hp
  simp [placeJoin, claimJoin, hp, bind, Except.bind] at h

end Demand
end QueryPlanner
