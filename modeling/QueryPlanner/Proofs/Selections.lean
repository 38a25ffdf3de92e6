import Mathlib.Algebra.BigOperators.Group.Finset.Basic
import QueryPlanner.Proofs.Consistency
import QueryPlanner.Proofs.Lookup
import QueryPlanner.Proofs.ParallelReshape
import QueryPlanner.Proofs.Repetition.Placing

namespace QueryPlanner

open Run (Meets)
open Unlimited

-- Dividing by a count that was capped at what is left of the tuples is like dividing all at once, except
-- that one tuple always remains.
theorem div_capped {n v : Nat} (hv : 0 < v) : max 1 n / min v (max 1 n) = max 1 (n / v) := by
  by_cases h : v ≤ max 1 n
  case pos =>
    rw [min_eq_left h]
    by_cases hn : n = 0
    case pos => simp_all [show v = 1 by omega]
    case neg =>
      have := Nat.div_pos (show v ≤ n by omega) hv
      rw [max_eq_right (show 1 ≤ n by omega), max_eq_right this]
  case neg =>
    have : n / v = 0 := Nat.div_eq_of_lt (by omega)
    rw [min_eq_right (not_le.mp h).le, Nat.div_self (by omega), this]
    rfl

namespace Relation

variable {r : Relation} {names names' : List String} {n : String}

def valuesOf (r : Relation) (name : String) : Nat :=
  ((r.get? name).map (·.valueCount.toNat)).getD 0

def matching (r : Relation) (names : List String) : Nat :=
  if r.tupleCount = 0 ∨ ∃ n ∈ names, r.valuesOf n = 0 then
    0
  else
    max 1 (r.tupleCount / ∏ n ∈ names.toFinset, r.valuesOf n)

def restricted (r : Relation) (names : List String) : Relation :=
  of (r.matching names) (recount names 1 r.attributes)

theorem restricted_congr (h : ∀ n, n ∈ names ↔ n ∈ names') :
    r.restricted names = r.restricted names' := by
  have hm : r.matching names = r.matching names' := by
    have : names.toFinset = names'.toFinset := by ext; simp [h]
    simp only [matching, h, this]
  simp only [restricted, recount, hm, h]

theorem restricted_nil (r : Relation) : r.restricted [] = r := by
  have hm : r.matching [] = r.tupleCount := by
    simp only [matching, List.not_mem_nil, false_and, exists_false, or_false, List.toFinset_nil,
      Finset.prod_empty, Nat.div_one]
    split <;> omega
  have hr : recount [] 1 r.attributes = r.attributes := by simp [recount]
  rw [restricted, hm, hr, of_self]

theorem matching_cons (hn : n ∉ names) :
    r.matching (n :: names) = r.matching names / min (r.valuesOf n) (r.matching names) := by
  by_cases h : r.tupleCount = 0 ∨ ∃ m ∈ names, r.valuesOf m = 0
  case pos =>
    have h' : r.tupleCount = 0 ∨ ∃ m ∈ n :: names, r.valuesOf m = 0 :=
      h.imp_right fun ⟨m, hm, hv⟩ => ⟨m, List.mem_cons_of_mem _ hm, hv⟩
    rw [matching, matching, if_pos h, if_pos h', Nat.zero_div]
  case neg =>
    rw [matching, matching, if_neg h]
    by_cases hv : r.valuesOf n = 0
    case pos => rw [if_pos (.inr ⟨n, List.mem_cons_self .., hv⟩), hv, Nat.zero_min, Nat.div_zero]
    case neg =>
      have h' : ¬(r.tupleCount = 0 ∨ ∃ m ∈ n :: names, r.valuesOf m = 0) := by
        simpa [hv] using h
      rw [if_neg h', div_capped (Nat.pos_of_ne_zero hv), Nat.div_div_eq_div_mul, List.toFinset_cons,
        Finset.prod_insert (by simpa using hn), mul_comm]

theorem matching_cons_of_mem (hn : n ∈ names) : r.matching (n :: names) = r.matching names := by
  have hs : (n :: names).toFinset = names.toFinset := by simpa using hn
  have hz : (∃ m ∈ n :: names, r.valuesOf m = 0) ↔ ∃ m ∈ names, r.valuesOf m = 0 := by
    simp only [List.exists_mem_cons_iff, or_iff_right_iff_imp]
    exact fun hv => ⟨n, hn, hv⟩
  simp only [matching, hz, hs]

theorem matching_cons_le (r : Relation) (names : List String) (n : String) :
    r.matching (n :: names) ≤ r.matching names := by
  by_cases hn : n ∈ names
  case pos => exact (matching_cons_of_mem hn).le
  case neg => exact matching_cons hn ▸ Nat.div_le_self ..

theorem recount_recount (n : String) (names : List String) (as : List Attribute) :
    recount [n] 1 (recount names 1 as) = recount (n :: names) 1 as := by
  simp only [recount, List.map_map]
  refine List.map_congr_left fun a _ => ?_
  by_cases hm : a.name ∈ names <;> simp [hm, Attribute.withValueCount]

theorem get?_restricted (r : Relation) (names : List String) (n : String) :
    (r.restricted names).get? n = (r.get? n).map fun a =>
      (if n ∈ names then a.withValueCount 1 else a).cappedAt (r.matching names) := by
  rw [restricted, get?_of, find?_recount, Option.map_map]
  cases h : r.get? n
  case none   => rw [show r.attributes.find? _ = none from h, Option.map_none, Option.map_none]
  case some a =>
    rw [show r.attributes.find? _ = some a from h, Option.map_some, Option.map_some, Function.comp,
      get?_name h]

theorem degraded_restricted (hg : r.get? n = none) (names : List String) :
    (r.restricted names).degraded = r.restricted (n :: names) := by
  have hm : r.matching (n :: names) = 0 :=
    if_pos (.inr ⟨n, List.mem_cons_self .., by simp [valuesOf, hg]⟩)
  have hr : recount (n :: names) 1 r.attributes = recount names 1 r.attributes := by
    refine List.map_congr_left fun a ha => ?_
    have : a.name ≠ n := by simpa using List.find?_eq_none.mp hg a ha
    simp [this]
  refine Relation.ext hm.symm ?_
  rw [restricted, restricted, degraded, of_attributes, of_attributes, of_attributes, hm, hr, List.map_map]
  exact List.map_congr_left fun a _ => a.cappedAt_cappedAt (Nat.zero_le _)

-- What a selection divides by is cut to the tuples that the ones before it have left.
theorem fdiv_matching {a : Attribute} (h : r.Counts 0) (hg : r.get? n = some a) (names : List String) :
    Int.fdiv (r.matching names)
        ((if n ∈ names then a.withValueCount 1 else a).cappedAt (r.matching names)).valueCount =
      r.matching (n :: names) := by
  have hv : (r.valuesOf n : Int) = a.valueCount := by
    rw [valuesOf, hg, Option.map_some, Option.getD_some, Int.toNat_of_nonneg (h a (get?_mem hg))]
  rw [Attribute.cappedAt_valueCount]
  split
  case isTrue hn =>
    rw [matching_cons_of_mem hn, Attribute.withValueCount_valueCount]
    cases r.matching names
    case zero   => rfl
    case succ m => rw [min_eq_left (by omega), Int.fdiv_one]
  case isFalse hn =>
    rw [matching_cons hn, ← hv, ← Nat.cast_min, Int.fdiv_eq_ediv_of_nonneg _ (Int.natCast_nonneg _),
      Int.natCast_ediv]

theorem selectValue_restricted (h : r.Counts 0) (names : List String) (n : String) :
    (r.restricted names).selectValue n = .ok (r.restricted (n :: names)) := by
  unfold selectValue
  rw [get?_restricted]
  cases hg : r.get? n
  case none   => exact congrArg Except.ok (degraded_restricted hg names)
  case some a =>
    have hof : of? (r.matching (n :: names)) (recount [n] 1 (r.restricted names).attributes) =
        .ok (r.restricted (n :: names)) := by
      refine of?_eq_ok_iff.mpr ⟨Int.natCast_nonneg _, Relation.ext rfl ?_⟩
      rw [Int.toNat_natCast, of_attributes, restricted, of_attributes,
        recount_capped (matching_cons_le r names n) rfl, recount_recount, restricted, of_attributes]
    rw [Option.map_some]
    dsimp only
    rw [← hof]
    exact congrArg (of? · _) (fdiv_matching h hg names)

theorem attributes_restricted (r : Relation) (names : List String) :
    (r.restricted names).attributes = r.attributes.map fun a =>
      a.withValueCount (min (if a.name ∈ names then 1 else a.valueCount) (r.matching names)) := by
  rw [restricted, of_attributes, recount, List.map_map]
  refine List.map_congr_left fun a _ => ?_
  rw [Function.comp, Attribute.cappedAt_eq]
  split <;> rfl

end Relation

namespace Plan

variable {ν : Type} {r : Relation} {plan q : Plan Relation} {names : List String}

theorem estimate_selects (ps : List (ν × Predicate)) (plan : Plan ν) :
    (plan.selects ps).estimate = plan.estimate >>= stack (ps.map (·.2)).reverse := by
  induction ps
  case nil =>
    change plan.estimate = plan.estimate >>= fun q => pure q
    exact (bind_pure _).symm
  case cons p ps hi =>
    change (plan.selects ps).estimate >>= selecting p.2 = _
    rw [hi, bind_assoc, List.map_cons, List.reverse_cons]
    refine congrArg _ (funext fun q => ?_)
    simp [stack, List.foldlM_append]

theorem stack_values (h : r.Counts 0) (hq : plan.output = r.restricted names)
    (ps : List ValuePredicate) : ∃ q, stack (ps.map .value) plan = .ok q ∧
      q.output = r.restricted (ps.map (·.name) ++ names) := by
  induction ps generalizing plan names
  case nil          => exact ⟨plan, stack_nil.mpr rfl, hq⟩
  case cons p ps hi =>
    have hs : plan.output.select (.value p) = .ok (r.restricted (p.name :: names)) :=
      hq ▸ Relation.selectValue_restricted h names p.name
    let top : Plan Relation := .select (r.restricted (p.name :: names)) (.value p) plan
    obtain ⟨q, hq', ho⟩ := hi (show top.output = _ from rfl)
    refine ⟨q, stack_cons.mpr ⟨_, selecting_eq_ok_iff.mpr ⟨_, hs, rfl⟩, hq'⟩, ho.trans ?_⟩
    exact Relation.restricted_congr fun n => List.perm_middle.mem_iff

def sifted (n : ν) (r : NamedRelation) (ps : List (ν × ValuePredicate)) : Plan ν :=
  (scan n r).selects (ps.map fun p => (p.1, .value p.2))

section Sifted

variable {r : NamedRelation} {ps : List (ν × ValuePredicate)}

theorem stack_scanning (h : r.statistics.Counts 0) (ps : List ValuePredicate) :
    ∃ q, stack (ps.map .value) (scanning r) = .ok q ∧
      q.output = r.statistics.restricted (ps.map (·.name)) := by
  have hq : (scanning r).output = r.statistics.restricted [] := (Relation.restricted_nil _).symm
  obtain ⟨q, hq, ho⟩ := stack_values h hq ps
  exact ⟨q, hq, List.append_nil (ps.map (·.name)) ▸ ho⟩

theorem estimate_sifted (h : r.statistics.Counts 0) (n : ν) (ps : List (ν × ValuePredicate)) :
    ∃ q, (sifted n r ps).estimate = .ok q ∧
      q.output = r.statistics.restricted (ps.map (·.2.name)) := by
  obtain ⟨q, hq, ho⟩ := stack_scanning h (ps.map (·.2)).reverse
  refine ⟨q, ?_, ho.trans <| Relation.restricted_congr fun m => by simp⟩
  have hps : ((ps.map fun p => (p.1, Predicate.value p.2)).map (·.2)).reverse =
      (ps.map (·.2)).reverse.map Predicate.value := by simp
  rw [sifted, estimate_selects, hps]
  exact hq

theorem placeScan_values {d : Demand} (hj : d.joins = []) (hm : d.narrowing = false)
    (hn : ∀ p ∈ d.selects, r.has p.name) :
    (r.values d).Perm d.selects ∧ Meets (fun _ => True) (placeScan r) d fun q d' =>
      stack ((r.values d).map .value) (scanning r) = .ok q ∧ d'.unmatched = [] := by
  have hs := sortByText_perm ValuePredicate.text d.selects
  have hequations : r.equations d = [] := by
    rw [NamedRelation.equations, hj, sortByText_nil, List.filter_nil]
  have hdiff : d.selects.diff (r.values d) = [] := List.eq_nil_iff_forall_not_mem.mpr fun p hp => by
    obtain ⟨hp, hf⟩ := mem_diff_sorted.mp hp
    exact Bool.noConfusion ((hn p hp).symm.trans hf)
  constructor
  · rwa [NamedRelation.values, List.filter_eq_self.mpr fun p hp => hn p (hs.mem_iff.mp hp)]
  · refine (placeScan_result r d).mono fun q d' h => ?_
    obtain ⟨⟨top, htop, hq⟩, hd⟩ := h
    have hnarrow : d'.narrowing = false := by rw [hd, Demand.narrowing_releaseAll]; exact hm
    obtain rfl : q = top := hq.trans (if_pos hnarrow)
    rw [hequations, List.map_nil, List.append_nil] at htop
    rw [hdiff, hj, hequations, Demand.releaseAll_eq] at hd
    exact ⟨htop, hd ▸ rfl⟩

theorem optimise_sifted (options : Options) (n : ν) (h : r.statistics.Counts 0)
    (hn : ∀ p ∈ ps, r.has p.2.name) :
    ∃ o, optimise options (sifted n r ps) = .ok o ∧
      o.value.output = r.statistics.restricted (ps.map (·.2.name)) := by
  let d : Demand := Demand.deferAll {} (ps.map (.value ·.2))
  have hselects : d.selects = ps.map (·.2) := by
    simp [d, Demand.selects_deferAll, List.filterMap_map, Function.comp_def, Predicate.value?]
  have hjoins : d.joins = [] := by
    simp [d, Demand.joins_deferAll, List.filterMap_map, Function.comp_def, Predicate.join?]
  obtain ⟨hperm, hplace⟩ := placeScan_values hjoins (Demand.narrowing_deferAll ..)
    (hselects ▸ List.forall_mem_map.mpr hn)
  have hs : ∀ s ∈ (sifted n r ps).scans, s.statistics.Counts 0 := by
    rw [sifted, scans_selects]
    exact List.forall_mem_singleton.mpr h
  obtain ⟨o, ho⟩ : ∃ o, reshape options (sifted n r ps) {} = .ok o := reshape_returns hs
  have hscan : placeScan r d = .ok o := by
    rw [← ho, reshape, sifted, Reshaping.plan_selects, List.map_map]
    rfl
  obtain ⟨htop, hunmatched⟩ := hplace.elim hscan
  obtain ⟨q, hq, hout⟩ := stack_scanning h (r.values d)
  refine ⟨_, optimise_eq_ok_iff.mpr ⟨o, ho, .inl ⟨hunmatched, rfl⟩⟩, ?_⟩
  rw [Except.ok.inj (htop.symm.trans hq), hout]
  refine Relation.restricted_congr fun m => ?_
  rw [(hperm.map _).mem_iff, hselects, List.map_map]
  rfl

-- What a chain of value selections leaves depends on the names that occur in it only.
theorem sifted_closed_form (h : r.statistics.Counts 0) (n : ν) (ps : List (ν × ValuePredicate)) :
    ∃ q, (sifted n r ps).estimate = .ok q ∧
      q.tupleCount = r.statistics.matching (ps.map (·.2.name)) ∧
      (q.output.attributes = r.statistics.attributes.map fun a =>
        a.withValueCount (min (if a.name ∈ ps.map (·.2.name) then 1 else a.valueCount) q.tupleCount)) ∧
      (∀ ps', ps'.Perm ps → ∃ q', (sifted n r ps').estimate = .ok q' ∧ q'.output = q.output) ∧
      ((∀ p ∈ ps, r.has p.2.name) → ∀ options, ∃ o, optimise options (sifted n r ps) = .ok o ∧
        o.value.output = q.output) := by
  obtain ⟨q, hq, ho⟩ := estimate_sifted h n ps
  have ht : q.tupleCount = r.statistics.matching (ps.map (·.2.name)) := congrArg Relation.tupleCount ho
  refine ⟨q, hq, ht, ?_, fun ps' hp => ?_, fun hn options => ?_⟩
  · rw [ht, ho, Relation.attributes_restricted]
  · obtain ⟨q', hq', ho'⟩ := estimate_sifted h n ps'
    exact ⟨q', hq', ho'.trans <| (Relation.restricted_congr fun m => (hp.map _).mem_iff).trans ho.symm⟩
  · obtain ⟨o, hopt, hout⟩ := optimise_sifted options n h hn
    exact ⟨o, hopt, hout.trans ho.symm⟩

theorem sifted_closed_form_scarce :
    let r : NamedRelation := { name := "R", statistics := .of 20 [⟨"a", 3⟩, ⟨"b", 30⟩, ⟨"c", 9⟩] }
    let ps : List (Unit × ValuePredicate) := [((), ⟨0, "b", "1"⟩), ((), ⟨1, "a", "2"⟩), ((), ⟨2, "b", "1"⟩)]
    r.statistics.Counts 0 ∧
      ∃ q, (sifted () r ps).estimate = .ok q ∧ q.output = .of 1 [⟨"a", 1⟩, ⟨"b", 1⟩, ⟨"c", 1⟩] ∧
        ∃ o, optimise {} (sifted () r ps) = .ok o ∧ o.value.output = q.output := by
  intro r ps
  have h : r.statistics.Counts 0 := by unfold Relation.Counts; decide
  obtain ⟨q, hq, ht, ha, _, ho⟩ := sifted_closed_form h () ps
  have hn : ∀ p ∈ ps, r.has p.2.name := by decide
  have ht : q.tupleCount = 1 := ht.trans (by decide +kernel)
  refine ⟨h, q, hq, Relation.ext ht (ha.trans ?_), ho hn {}⟩
  rw [ht]
  decide +kernel

end Sifted
end Plan
end QueryPlanner
