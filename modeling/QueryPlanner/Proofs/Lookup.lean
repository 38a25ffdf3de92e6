import QueryPlanner.Proofs.Estimate

namespace QueryPlanner.Relation

variable {N N' : String → Bool} {r r' s s' t t' : Relation} {p : JoinPredicate} {q : Predicate}
variable {names outer : List String} {as bs : List Attribute} {n : String}

theorem get?_of (k : Nat) (as : List Attribute) (n : String) :
    (of k as).get? n = (as.find? (·.name = n)).map (·.cappedAt k) := by
  simp only [get?, of_attributes, List.find?_map, Function.comp_def, Attribute.cappedAt_name]

theorem find?_recount (names : List String) (count : Int) (as : List Attribute) (n : String) :
    (recount names count as).find? (·.name = n) = (as.find? (·.name = n)).map
      fun a => if a.name ∈ names then a.withValueCount count else a := by
  have name (a : Attribute) :
      (if a.name ∈ names then a.withValueCount count else a).name = a.name := by
    split <;> rfl
  simp only [recount, List.find?_map, Function.comp_def, name]

theorem get?_project (r : Relation) (names : List String) (n : String) :
    (r.project names).get? n =
      if n ∈ names then some ((r.get? n).getD { name := n, valueCount := 0 }) else none := by
  have name (m : String) : ((r.get? m).getD { name := m, valueCount := 0 }).name = m := by
    cases h : r.get? m
    case none   => rfl
    case some a => exact get?_name h
  have capped : ((r.get? n).getD { name := n, valueCount := 0 }).cappedAt r.tupleCount =
      (r.get? n).getD { name := n, valueCount := 0 } := by
    cases h : r.get? n
    case none   => exact Attribute.cappedAt_of_le (Int.natCast_nonneg _)
    case some a => exact Attribute.cappedAt_of_le (r.capped a (get?_mem h))
  rw [project, get?_of, List.find?_map]
  simp only [Function.comp_def, name]
  split
  case isTrue h =>
    have : names.find? (· = n) = some n := by
      obtain ⟨m, hm⟩ := Option.isSome_iff_exists.mp
        (List.find?_isSome.mpr ⟨n, h, decide_eq_true rfl⟩ : (names.find? (· = n)).isSome)
      rw [hm]
      simpa using List.find?_some hm
    rw [this, Option.map_some, Option.map_some, capped]
  case isFalse h =>
    have : names.find? (· = n) = none :=
      List.find?_eq_none.mpr fun m hm he => h (by simpa using decide_eq_true_eq.mp he ▸ hm)
    rw [this, Option.map_none, Option.map_none]

theorem project_project (h : ∀ n ∈ names, n ∈ outer) :
    (r.project outer).project names = r.project names := by
  have tuples : (r.project outer).tupleCount = r.tupleCount := rfl
  have found : ∀ n ∈ names, ((r.project outer).get? n).getD { name := n, valueCount := 0 } =
      (r.get? n).getD { name := n, valueCount := 0 } := fun n hn => by
    rw [get?_project, if_pos (h n hn), Option.getD_some]
  rw [project, tuples, List.map_congr_left found, project]

-- Two relations that cannot be told apart by their size or by looking up the names `N`.
structure Likewise (N : String → Bool) (r s : Relation) : Prop where
  tuples : s.tupleCount = r.tupleCount
  lookup : ∀ n, N n → s.get? n = r.get? n

namespace Likewise

theorem refl (r : Relation) : Likewise N r r :=
  ⟨rfl, fun _ _ => rfl⟩

theorem mono (h : Likewise N r s) (hn : ∀ n, N' n → N n) : Likewise N' r s :=
  ⟨h.tuples, fun n hn' => h.lookup n (hn n hn')⟩

theorem has (h : Likewise N r s) (hn : N n) : s.has n = r.has n := by
  rw [Relation.has, h.lookup n hn, Relation.has]

theorem find? (h : Likewise N r s) (hn : N n) :
    s.attributes.find? (·.name = n) = r.attributes.find? (·.name = n) :=
  h.lookup n hn

theorem of (h : ∀ n, N n → bs.find? (·.name = n) = as.find? (·.name = n)) (k : Nat) :
    Likewise N (.of k as) (.of k bs) :=
  ⟨rfl, fun n hn => by rw [get?_of, get?_of, h n hn]⟩

theorem of? {k : Int} (h : ∀ n, N n → bs.find? (·.name = n) = as.find? (·.name = n))
    (ht : Relation.of? k as = .ok t) (ht' : Relation.of? k bs = .ok t') : Likewise N t t' := by
  rw [← (of?_eq_ok_iff.mp ht).right, ← (of?_eq_ok_iff.mp ht').right]
  exact .of h _

theorem recount (h : Likewise N r s) (names : List String) (count : Int) (n : String) (hn : N n) :
    (Relation.recount names count s.attributes).find? (·.name = n) =
      (Relation.recount names count r.attributes).find? (·.name = n) := by
  rw [find?_recount, find?_recount, h.find? hn]

theorem select (h : Likewise N r r') (hq : ∀ n ∈ q.attributes, N n) (ht : r.select q = .ok t)
    (ht' : r'.select q = .ok t') : Likewise N t t' := by
  have degraded : Likewise N r.degraded r'.degraded := .of (fun _ => h.find?) 0
  cases q
  case value p =>
    have hn := h.lookup p.name (hq _ (List.mem_singleton_self _))
    simp only [Relation.select, selectValue, h.tuples, hn] at ht ht'
    cases hg : r.get? p.name <;> simp only [hg] at ht ht'
    case none   => cases ht; cases ht'; exact degraded
    case some a => exact .of? (h.recount _ _) ht ht'
  case join p =>
    have hl := h.lookup p.left (hq _ (List.mem_cons_self ..))
    have hr := h.lookup p.right (hq _ (List.mem_cons_of_mem _ (List.mem_singleton_self _)))
    simp only [Relation.select, selectEqual, h.tuples, hl, hr] at ht ht'
    cases hg : r.get? p.left <;> cases hk : r.get? p.right <;> simp only [hg, hk] at ht ht'
    case some.some a b => exact .of? (h.recount _ _) ht ht'
    all_goals cases ht; cases ht'; exact degraded

theorem append (hr : Likewise N r r') (hs : Likewise N s s') (n : String) (hn : N n) :
    (r'.attributes ++ s'.attributes).find? (·.name = n) =
      (r.attributes ++ s.attributes).find? (·.name = n) := by
  rw [List.find?_append, List.find?_append, hr.find? hn, hs.find? hn]

theorem product (hr : Likewise N r r') (hs : Likewise N s s') :
    Likewise N (r.product s) (r'.product s') := by
  rw [Relation.product, Relation.product, hr.tuples, hs.tuples]
  exact .of (hr.append hs) _

theorem joinSides_eq (hr : Likewise N r r') (hs : Likewise N s s') (hp : ∀ n ∈ p.attributes, N n) :
    r'.joinSides s' p = r.joinSides s p := by
  have hl : N p.left := hp _ (List.mem_cons_self ..)
  have hr' : N p.right := hp _ (List.mem_cons_of_mem _ (List.mem_singleton_self _))
  rw [joinSides, joinSides, hr.lookup _ hl, hs.lookup _ hr', hr.lookup _ hr', hs.lookup _ hl]

theorem join (hr : Likewise N r r') (hs : Likewise N s s') (hp : ∀ n ∈ p.attributes, N n)
    (ht : r.join s p = .ok t) (ht' : r'.join s' p = .ok t') : Likewise N t t' := by
  simp only [Relation.join, joinSides_eq hr hs hp, hr.tuples, hs.tuples] at ht ht'
  cases hj : r.joinSides s p <;> simp only [hj] at ht ht'
  case none => cases ht; cases ht'; exact .of (hr.append hs) 0
  case some =>
    refine .of? (fun n hn => ?_) ht ht'
    rw [List.find?_append, List.find?_append, hr.recount _ _ n hn, hs.recount _ _ n hn]

theorem project (h : Likewise N r s) (hn : ∀ n, N n → (n ∈ names ↔ r.has n)) :
    Likewise N (r.project names) s where
  tuples     := h.tuples
  lookup n hN := by
    rw [get?_project, h.lookup n hN]
    cases hg : r.get? n
    case none   => exact (if_neg fun hm => by simpa [Relation.has, hg] using (hn n hN).mp hm).symm
    case some a => exact (if_pos ((hn n hN).mpr (by simp [Relation.has, hg]))).symm

end Likewise
end QueryPlanner.Relation
