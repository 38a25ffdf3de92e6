import Mathlib.Algebra.Order.Ring.Int
import Mathlib.Tactic.Linarith
import QueryPlanner.Estimate

namespace QueryPlanner

namespace Attribute

theorem cappedAt_eq (a : Attribute) (limit : Nat) :
    a.cappedAt limit = a.withValueCount (min a.valueCount limit) := by
  unfold cappedAt
  split
  case isTrue h  => rw [min_eq_right h.le]
  case isFalse h => rw [min_eq_left (not_lt.mp h)]; rfl

theorem cappedAt_cappedAt {m n : Nat} (h : n ≤ m) (a : Attribute) :
    (a.cappedAt m).cappedAt n = a.cappedAt n := by
  have : min (min a.valueCount m) n = min a.valueCount n := by omega
  rw [cappedAt_eq, cappedAt_valueCount, this, cappedAt_eq, cappedAt_eq]
  rfl

end Attribute

namespace Relation

variable {r s t : Relation} {p : JoinPredicate} {q : Predicate} {names : List String}

@[simp]
theorem names_of (n : Nat) (as : List Attribute) : (of n as).names = as.map Attribute.name := by
  simp [names, Function.comp_def]

theorem of?_eq_ok_iff {n : Int} {as : List Attribute} :
    of? n as = .ok s ↔ 0 ≤ n ∧ of n.toNat as = s := by
  unfold of?
  split <;> simp <;> omega

@[simp]
theorem map_name_recount (names : List String) (count : Int) (as : List Attribute) :
    (recount names count as).map Attribute.name = as.map Attribute.name := by
  simp only [recount, List.map_map]
  exact List.map_congr_left fun a _ => by simp only [Function.comp]; split <;> rfl

theorem names_select (h : r.select q = .ok s) : s.names = r.names := by
  have kept {m : Int} {ns : List String} {count : Int}
      (h : of? m (recount ns count r.attributes) = .ok s) : s.names = r.names := by
    rw [← (of?_eq_ok_iff.mp h).right, names_of, map_name_recount, names]
  cases q
  case join p =>
    simp only [select, selectEqual] at h
    split at h
    · exact kept h
    · cases h; rw [degraded, names_of, names]
  case value p =>
    simp only [select, selectValue] at h
    split at h
    · cases h; rw [degraded, names_of, names]
    · exact kept h

@[simp]
theorem names_project (r : Relation) (names : List String) : (r.project names).names = names := by
  simp only [project, names_of, List.map_map]
  refine (List.map_congr_left fun n _ => ?_).trans (List.map_id _)
  cases h : r.get? n
  case none   => simp [Function.comp, h]
  case some a => simp [Function.comp, h, get?_name h]

@[simp]
theorem names_product (r s : Relation) : (r.product s).names = r.names ++ s.names := by
  rw [product, names_of, List.map_append, names, names]

theorem names_join (h : r.join s p = .ok t) : t.names = r.names ++ s.names := by
  unfold join at h
  split at h
  case h_1 => cases h; rw [names_of, List.map_append, names, names]
  case h_2 =>
    rw [← (of?_eq_ok_iff.mp h).right, names_of, List.map_append, map_name_recount, map_name_recount, names, names]

theorem has_eq_of_names (h : s.names = r.names) (n : String) : s.has n = r.has n :=
  Bool.eq_iff_iff.mpr (by rw [has_iff, has_iff, h])

theorem has_append {n : String} (h : t.names = r.names ++ s.names) :
    t.has n = (r.has n || s.has n) :=
  Bool.eq_iff_iff.mpr (by rw [Bool.or_eq_true, has_iff, has_iff, has_iff, h, List.mem_append])

theorem of?_congr {n : Int} {as bs : List Attribute}
    (h : as.map (·.cappedAt n.toNat) = bs.map (·.cappedAt n.toNat)) : of? n as = of? n bs := by
  have : of n.toNat as = of n.toNat bs := Relation.ext rfl h
  rw [of?, this, of?]

-- Where counts are capped in the end it does not matter whether they were capped before.
theorem recount_capped {m n : Nat} {count count' : Int} (hn : n ≤ m)
    (hc : min count' n = min count n) (names : List String) (as : List Attribute) :
    (recount names count' (as.map (·.cappedAt m))).map (·.cappedAt n) =
      (recount names count as).map (·.cappedAt n) := by
  simp only [recount, List.map_map]
  refine List.map_congr_left fun a _ => ?_
  simp only [Function.comp, Attribute.cappedAt_name]
  split
  case isTrue  =>
    simp only [Attribute.cappedAt_eq, Attribute.withValueCount_valueCount, hc]
    rfl
  case isFalse => exact a.cappedAt_cappedAt hn

def Counts (least : Int) (r : Relation) : Prop :=
  ∀ a ∈ r.attributes, least ≤ a.valueCount

-- There are tuples, and every attribute has values in them.
structure Populated (r : Relation) : Prop where
  tuples : 1 ≤ r.tupleCount
  values : r.Counts 1

instance (least : Int) (r : Relation) : Decidable (r.Counts least) :=
  inferInstanceAs (Decidable (∀ a ∈ r.attributes, least ≤ a.valueCount))

instance (r : Relation) : Decidable r.Populated :=
  decidable_of_iff (1 ≤ r.tupleCount ∧ r.Counts 1)
    ⟨fun ⟨ht, hv⟩ => ⟨ht, hv⟩, fun h => ⟨h.tuples, h.values⟩⟩

theorem Populated.nonneg (h : r.Populated) : r.Counts 0 := fun a ha =>
  zero_le_one.trans (h.values a ha)

theorem counts_of {least : Int} {n : Nat} {as : List Attribute} (hn : least ≤ n)
    (h : ∀ a ∈ as, least ≤ a.valueCount) : (of n as).Counts least := by
  intro b hb
  have ⟨a, ha, he⟩ := List.mem_map.mp hb
  rw [← he, Attribute.cappedAt_valueCount]
  exact le_min (h a ha) hn

theorem counts_recount {least count : Int} {as : List Attribute} (hc : least ≤ count)
    (h : ∀ a ∈ as, least ≤ a.valueCount) : ∀ a ∈ recount names count as, least ≤ a.valueCount := by
  intro b hb
  have ⟨a, ha, he⟩ := List.mem_map.mp hb
  split at he
  · exact he ▸ hc
  · exact he ▸ h a ha

theorem counts_append {least : Int} (hr : r.Counts least) (hs : s.Counts least) :
    ∀ a ∈ r.attributes ++ s.attributes, least ≤ a.valueCount := by
  simp only [List.mem_append]
  rintro a (ha | ha)
  · exact hr a ha
  · exact hs a ha

theorem fdiv_nonneg {m n : Int} (hm : 0 ≤ m) (hn : 0 ≤ n) : 0 ≤ m.fdiv n := by
  rw [Int.fdiv_eq_ediv_of_nonneg _ hn]
  exact Int.ediv_nonneg hm hn

theorem le_fdiv {k m n : Int} (hn : 1 ≤ n) (h : k * n ≤ m) : k ≤ m.fdiv n := by
  rw [Int.fdiv_eq_ediv_of_nonneg _ (by omega)]
  exact (Int.le_ediv_iff_mul_le (by omega)).mpr h

theorem one_le_fdiv {m n : Int} (hn : 1 ≤ n) (h : n ≤ m) : 1 ≤ m.fdiv n :=
  le_fdiv hn ((one_mul n).le.trans h)

theorem nonneg_degraded (h : r.Counts 0) : r.degraded.Counts 0 :=
  counts_of le_rfl h

theorem nonneg_of? {m : Int} {as : List Attribute} (hm : 0 ≤ m) (h : ∀ a ∈ as, 0 ≤ a.valueCount) :
    ∃ t, of? m as = .ok t ∧ t.Counts 0 :=
  ⟨_, of?_eq_ok_iff.mpr ⟨hm, rfl⟩, counts_of (Int.natCast_nonneg _) h⟩

theorem nonneg_select (h : r.Counts 0) (q : Predicate) : ∃ t, r.select q = .ok t ∧ t.Counts 0 := by
  cases q
  case join p =>
    simp only [select, selectEqual]
    split
    case h_1 a b ha hb =>
      have ha := h a (get?_mem ha)
      have hb := h b (get?_mem hb)
      exact nonneg_of? (fdiv_nonneg (by omega) (by omega)) (counts_recount (by omega) h)
    case h_2 => exact ⟨_, rfl, nonneg_degraded h⟩
  case value p =>
    simp only [select, selectValue]
    split
    case h_1 => exact ⟨_, rfl, nonneg_degraded h⟩
    case h_2 a ha =>
      exact nonneg_of? (fdiv_nonneg (by omega) (h a (get?_mem ha))) (counts_recount (by omega) h)

theorem nonneg_project (h : r.Counts 0) (names : List String) : (r.project names).Counts 0 := by
  refine counts_of (Int.natCast_nonneg _) fun a ha => ?_
  have ⟨n, _, he⟩ := List.mem_map.mp ha
  cases hn : r.get? n
  case none   => rw [← he, hn]; rfl
  case some b => rw [← he, hn]; exact h b (get?_mem hn)

theorem nonneg_product (hr : r.Counts 0) (hs : s.Counts 0) : (r.product s).Counts 0 :=
  counts_of (Int.natCast_nonneg _) (counts_append hr hs)

theorem joinSides_mem {a b : Attribute} (h : r.joinSides s p = some (a, b)) :
    a ∈ r.attributes ∧ b ∈ s.attributes := by
  unfold joinSides at h
  split at h
  case h_1 ha hb => cases h; exact ⟨get?_mem ha, get?_mem hb⟩
  case h_2 =>
    split at h
    case h_1 ha hb => cases h; exact ⟨get?_mem ha, get?_mem hb⟩
    case h_2       => cases h

theorem joinSides_isSome (hr : r.has p.left) (hs : s.has p.right) : (r.joinSides s p).isSome := by
  simp only [has, Option.isSome_iff_exists] at hr hs
  obtain ⟨a, ha⟩ := hr
  obtain ⟨b, hb⟩ := hs
  simp [joinSides, ha, hb]

theorem nonneg_join (hr : r.Counts 0) (hs : s.Counts 0) (p : JoinPredicate) :
    ∃ t, r.join s p = .ok t ∧ t.Counts 0 := by
  unfold join
  split
  case h_1 => exact ⟨_, rfl, counts_of le_rfl (counts_append hr hs)⟩
  case h_2 a b he =>
    have ⟨ha, hb⟩ := joinSides_mem he
    have ha := hr a ha
    have hb := hs b hb
    refine nonneg_of? (fdiv_nonneg (mul_nonneg (Int.natCast_nonneg _) (Int.natCast_nonneg _)) (by omega)) fun c hc => ?_
    cases List.mem_append.mp hc
    case inl hc => exact counts_recount (by omega) hr c hc
    case inr hc => exact counts_recount (by omega) hs c hc

theorem populated_of? {m : Int} {as : List Attribute} (hm : 1 ≤ m) (h : ∀ a ∈ as, 1 ≤ a.valueCount) :
    ∃ t, of? m as = .ok t ∧ t.Populated :=
  ⟨_, of?_eq_ok_iff.mpr ⟨by omega, rfl⟩, by simp; omega, counts_of (by omega) h⟩

theorem populated_select (h : r.Populated) (hq : ∀ n ∈ q.attributes, r.has n) :
    ∃ t, r.select q = .ok t ∧ t.Populated := by
  have get {n} (hn : n ∈ q.attributes) := Option.isSome_iff_exists.mp (hq n hn)
  cases q
  case join p =>
    obtain ⟨a, ha⟩ := get (n := p.left) (by simp [Predicate.attributes, JoinPredicate.attributes])
    obtain ⟨b, hb⟩ := get (n := p.right) (by simp [Predicate.attributes, JoinPredicate.attributes])
    have ha' := h.values a (get?_mem ha)
    have hb' := h.values b (get?_mem hb)
    have := r.capped a (get?_mem ha)
    have := r.capped b (get?_mem hb)
    simp only [select, selectEqual, ha, hb]
    exact populated_of? (one_le_fdiv (by omega) (by omega)) (counts_recount (by omega) h.values)
  case value p =>
    obtain ⟨a, ha⟩ := get (n := p.name) (by simp [Predicate.attributes])
    simp only [select, selectValue, ha]
    exact populated_of? (one_le_fdiv (h.values a (get?_mem ha)) (r.capped a (get?_mem ha)))
      (counts_recount le_rfl h.values)

theorem populated_product (hr : r.Populated) (hs : s.Populated) : (r.product s).Populated where
  tuples := Nat.mul_pos hr.tuples hs.tuples
  values := counts_of (Int.natCast_pos.mpr (Nat.mul_pos hr.tuples hs.tuples))
    (counts_append hr.values hs.values)

theorem populated_join_of_isSome (hr : r.Populated) (hs : s.Populated)
    (hp : (r.joinSides s p).isSome) : ∃ t, r.join s p = .ok t ∧ t.Populated := by
  have ⟨(a, b), he⟩ := Option.isSome_iff_exists.mp hp
  have ⟨ha, hb⟩ := joinSides_mem he
  have ha' := hr.values a ha
  have hb' := hs.values b hb
  have hle : max a.valueCount b.valueCount ≤ (r.tupleCount * s.tupleCount : Int) := by
    have := r.capped a ha
    have := s.capped b hb
    have := hr.tuples
    have := hs.tuples
    exact max_le (by nlinarith) (by nlinarith)
  simp only [join, he]
  refine populated_of? (one_le_fdiv (by omega) hle) fun c hc => ?_
  cases List.mem_append.mp hc
  case inl hc => exact counts_recount (by omega) hr.values c hc
  case inr hc => exact counts_recount (by omega) hs.values c hc

theorem populated_join (hr : r.Populated) (hs : s.Populated) (hl : r.has p.left)
    (hr' : s.has p.right) : ∃ t, r.join s p = .ok t ∧ t.Populated :=
  populated_join_of_isSome hr hs (joinSides_isSome hl hr')

end Relation
end QueryPlanner
