import QueryPlanner.Proofs.Lookup
import QueryPlanner.Proofs.Plan

namespace QueryPlanner

namespace Relation

variable {r s : Relation} {p : JoinPredicate} {a b : Attribute} {n : String}

theorem get?_eq_none_iff : r.get? n = none ↔ r.has n = false := by
  simp [has]

theorem get?_product (r s : Relation) (n : String) : (r.product s).get? n =
    ((r.get? n).or (s.get? n)).map (·.cappedAt (r.tupleCount * s.tupleCount)) := by
  rw [product, get?_of, List.find?_append]
  rfl

theorem recount_append {m n : String} (hm : s.has m = false) (hn : r.has n = false) (count : Int) :
    recount [m, n] count (r.attributes ++ s.attributes) =
      recount [m] count r.attributes ++ recount [n] count s.attributes := by
  have absent {t : Relation} {x : String} (h : t.has x = false) {a} (ha : a ∈ t.attributes) :
      a.name ≠ x := by
    rintro rfl
    have : t.has a.name := has_iff.mpr (List.mem_map_of_mem ha)
    simp [h] at this
  rw [recount, List.map_append]
  congr 1
  · exact List.map_congr_left fun a ha => by simp [absent hn ha]
  · exact List.map_congr_left fun a ha => by simp [absent hm ha]

theorem product_attributes (hr : 0 < r.tupleCount) (hs : 0 < s.tupleCount) :
    (r.product s).attributes = r.attributes ++ s.attributes := by
  have within {t : Relation} (ht : t.tupleCount ≤ r.tupleCount * s.tupleCount) {a}
      (ha : a ∈ t.attributes) : a.cappedAt (r.tupleCount * s.tupleCount) = a :=
    Attribute.cappedAt_of_le ((t.capped a ha).trans (by exact_mod_cast ht))
  refine (List.map_congr_left fun a ha => ?_).trans (List.map_id _)
  cases List.mem_append.mp ha
  case inl ha => exact within (Nat.le_mul_of_pos_right _ hs) ha
  case inr ha => exact within (Nat.le_mul_of_pos_left _ hr) ha

theorem select_swapped (r : Relation) (p : JoinPredicate) :
    r.select (.join p.swapped) = r.select (.join p) := by
  have hrecount (count : Int) : recount [p.right, p.left] count r.attributes =
      recount [p.left, p.right] count r.attributes := by
    simp [recount, or_comm]
  simp only [select, selectEqual, JoinPredicate.swapped]
  cases r.get? p.left <;> cases r.get? p.right
  case some.some a b => simp only [max_comm b.valueCount, min_comm b.valueCount, hrecount]
  all_goals rfl

theorem join_swapped (hs : s.has p.left = false) (hr : r.has p.right = false) :
    r.join s p.swapped = r.join s p := by
  have hs := get?_eq_none_iff.mpr hs
  have hr := get?_eq_none_iff.mpr hr
  have sides : r.joinSides s p.swapped = r.joinSides s p := by
    simp only [joinSides, JoinPredicate.swapped, hs, hr]
  rw [join, sides, join]

theorem joinSides_eq_some (ha : r.get? p.left = some a) (hb : s.get? p.right = some b) :
    r.joinSides s p = some (a, b) := by
  simp [joinSides, ha, hb]

-- Without tuples on one side both come to nothing. Otherwise the product has the counts of its inputs.
theorem select_product (hl : r.has p.left) (hl' : s.has p.left = false) (hr : s.has p.right)
    (hr' : r.has p.right = false) : (r.product s).select (.join p) = r.join s p := by
  obtain ⟨a, ha⟩ := Option.isSome_iff_exists.mp hl
  obtain ⟨b, hb⟩ := Option.isSome_iff_exists.mp hr
  have ha' : (r.product s).get? p.left = some (a.cappedAt (r.product s).tupleCount) := by
    rw [get?_product, ha]
    rfl
  have hb' : (r.product s).get? p.right = some (b.cappedAt (r.product s).tupleCount) := by
    rw [get?_product, get?_eq_none_iff.mpr hr', hb]
    rfl
  have hn : ((r.product s).tupleCount : Int) = r.tupleCount * s.tupleCount := Nat.cast_mul ..
  simp only [select, selectEqual, ha', hb', join, joinSides_eq_some ha hb, get?_name ha, get?_name hb,
    Attribute.cappedAt_valueCount, ← recount_append hl' hr', ← hn]
  -- The counts of the product are capped at its tuples, so nothing is left of them if there are none.
  by_cases h : (r.product s).tupleCount = 0
  case pos =>
    have hattributes : (r.product s).attributes = (r.attributes ++ s.attributes).map (·.cappedAt 0) := by
      rw [← h]
      rfl
    have hshared : min (min a.valueCount 0) (min b.valueCount 0) =
        min (min a.valueCount b.valueCount) 0 := by
      omega
    rw [hattributes, h, Nat.cast_zero, Int.zero_fdiv, Int.zero_fdiv, hshared]
    exact of?_congr (recount_capped le_rfl (by simp) _ _)
  case neg =>
    obtain ⟨ht, ht'⟩ : 0 < r.tupleCount ∧ 0 < s.tupleCount := by
      simpa [product, Nat.pos_iff_ne_zero] using h
    have hattributes := product_attributes ht ht'
    have hcapped (c) (hc : c ∈ r.attributes ++ s.attributes) :
        min c.valueCount (r.product s).tupleCount = c.valueCount :=
      min_eq_left ((r.product s).capped c (hattributes ▸ hc))
    rw [hcapped a (List.mem_append_left _ (get?_mem ha)),
      hcapped b (List.mem_append_right _ (get?_mem hb)), hattributes]

end Relation

variable {l r : Plan Relation} {p : JoinPredicate}

theorem Plan.output_joining (l r : Plan Relation) (p : JoinPredicate) :
    (joining p l r).map output = l.output.join r.output p := by
  unfold joining
  cases l.output.join r.output p <;> rfl

theorem Plan.output_selecting (plan : Plan Relation) (p : Predicate) :
    (selecting p plan).map output = plan.output.select p := by
  unfold selecting
  cases plan.output.select p <;> rfl

-- A join on an attribute of each input is estimated like a selection from their product, and the
-- predicate may be written either way round. If one of these estimates fails then so do the others.
theorem joining_as_selection (hl : l.output.has p.left) (hl' : r.output.has p.left = false)
    (hr : r.output.has p.right) (hr' : l.output.has p.right = false) :
    ∀ estimate ∈ [Plan.joining p.swapped l r, Plan.selecting (.join p) (.multiplying l r),
        Plan.selecting (.join p.swapped) (.multiplying l r)],
      estimate.map Plan.output = (Plan.joining p l r).map Plan.output := by
  have hs : (l.output.product r.output).select (.join p) = l.output.join r.output p :=
    Relation.select_product hl hl' hr hr'
  simp only [List.forall_mem_cons, Plan.output_joining, Plan.output_selecting]
  refine ⟨Relation.join_swapped hl' hr', hs, ?_, nofun⟩
  exact (Relation.select_swapped ..).trans hs

def lopsided : Plan Relation :=
  .scanning { name := "r", statistics := .of 4 [⟨"a", 3⟩, ⟨"c", -1⟩, ⟨"a", -2⟩] }

def crowded : Plan Relation :=
  .scanning { name := "s", statistics := .of 2 [⟨"d", 2⟩, ⟨"b", 2⟩, ⟨"d", 1⟩, ⟨"b", 0⟩] }

theorem joining_as_selection_lopsided :
    let p : JoinPredicate := { occurrence := 0, left := "a", right := "b" }
    (lopsided.output.has p.left ∧ crowded.output.has p.left = false ∧
      crowded.output.has p.right ∧ lopsided.output.has p.right = false) ∧
    ∀ estimate ∈ [Plan.joining p.swapped lopsided crowded,
        Plan.selecting (.join p) (.multiplying lopsided crowded),
        Plan.selecting (.join p.swapped) (.multiplying lopsided crowded)],
      estimate.map Plan.output = (Plan.joining p lopsided crowded).map Plan.output := by
  intro p
  have hl : lopsided.output.has p.left ∧ crowded.output.has p.left = false := by decide
  have hr : crowded.output.has p.right ∧ lopsided.output.has p.right = false := by decide
  exact ⟨⟨hl.left, hl.right, hr.left, hr.right⟩, joining_as_selection hl.left hl.right hr.left hr.right⟩

example : ((Plan.joining { occurrence := 0, left := "a", right := "b" } lopsided crowded).map
    (·.output.render)).toOption = some "2:a,2:c,-1:a,2:d,2:b,2:d,1:b,2" := by
  cbv

end QueryPlanner
