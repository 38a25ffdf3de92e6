import Mathlib.Algebra.Order.Group.Multiset
import QueryPlanner.Estimate

namespace QueryPlanner

-- What a plan is made of apart from its shape: the relations it scans and its predicates.
abbrev Part := NamedRelation ⊕ Predicate

theorem bind_eq_ok {ε α β : Type} {x : Except ε α} {f : α → Except ε β} {b : β}
    (h : x >>= f = .ok b) : ∃ a, x = .ok a ∧ f a = .ok b := by
  cases x
  case error => cases h
  case ok a  => exact ⟨a, rfl, h⟩

namespace Plan

variable {ν : Type} {plan : Plan ν}

-- The parts of a plan, each as often as it occurs. The placeholder does not count.
def contents : Plan ν → Multiset Part
  | scan _ r      => if r = .placeholder then 0 else {.inl r}
  | select _ p i  => .inr p ::ₘ i.contents
  | project _ _ i => i.contents
  | product _ l r => l.contents + r.contents
  | join _ p l r  => .inr (.join p) ::ₘ (l.contents + r.contents)

theorem contents_eq (plan : Plan ν) :
    plan.contents = ((plan.scans.filter (· ≠ .placeholder)).map .inl : List Part) +
      (plan.predicates.map .inr : List Part) := by
  induction plan
  case scan _ r =>
    by_cases h : r = .placeholder <;> simp [contents, scans, predicates, h]
  case select _ p i hi =>
    simp only [contents, scans, predicates, hi, List.map_cons, ← Multiset.cons_coe,
      Multiset.add_cons]
  case project _ _ i hi => exact hi
  case product _ l r hl hr =>
    simp only [contents, scans, predicates, hl, hr, List.filter_append, List.map_append,
      ← Multiset.coe_add]
    exact add_add_add_comm ..
  case join _ p l r hl hr =>
    simp only [contents, scans, predicates, hl, hr, List.filter_append, List.map_append,
      List.map_cons, ← Multiset.coe_add, ← Multiset.cons_coe, Multiset.add_cons]
    rw [add_add_add_comm]

theorem inr_mem_contents {p : Predicate} : .inr p ∈ plan.contents ↔ p ∈ plan.predicates := by
  simp [contents_eq]

@[simp]
theorem scans_withoutProjection (plan : Plan ν) : plan.withoutProjection.scans = plan.scans := by
  cases plan <;> rfl

@[simp]
theorem contents_withoutProjection (plan : Plan ν) :
    plan.withoutProjection.contents = plan.contents := by
  cases plan <;> rfl

@[simp]
theorem contents_nothing : nothing.contents = 0 :=
  if_pos rfl

@[simp]
theorem contents_multiplying (l r : Plan Relation) :
    (multiplying l r).contents = l.contents + r.contents :=
  rfl

theorem relations_of_contents (plan : Plan ν) :
    plan.contents.filterMap Sum.getLeft? = (plan.scans.filter (· ≠ .placeholder) : Multiset _) := by
  rw [contents_eq, Multiset.filterMap_add]
  simp [List.filterMap_map, Function.comp_def]

theorem predicates_of_contents (plan : Plan ν) :
    plan.contents.filterMap Sum.getRight? = (plan.predicates : Multiset _) := by
  rw [contents_eq, Multiset.filterMap_add]
  simp [List.filterMap_map, Function.comp_def]

theorem scans_ne_nil (plan : Plan ν) : plan.scans ≠ [] := by
  induction plan
  case scan r       => exact List.cons_ne_nil r []
  case select hi    => exact hi
  case project hi   => exact hi
  case product hl _ => exact List.append_ne_nil_of_left_ne_nil hl _
  case join hl _    => exact List.append_ne_nil_of_left_ne_nil hl _

def selects (ps : List (ν × Predicate)) (plan : Plan ν) : Plan ν :=
  ps.foldr (fun p i => select p.1 p.2 i) plan

theorem scans_selects (ps : List (ν × Predicate)) (plan : Plan ν) :
    (plan.selects ps).scans = plan.scans := by
  induction ps
  case nil         => rfl
  case cons _ _ hi => exact hi

theorem predicates_selects (ps : List (ν × Predicate)) (plan : Plan ν) :
    (plan.selects ps).predicates = ps.map (·.2) ++ plan.predicates := by
  induction ps
  case nil         => rfl
  case cons _ _ hi => exact congrArg (_ :: ·) hi

def offers (plan : Plan ν) : List String :=
  plan.scans.flatMap (·.statistics.names)

theorem offers_withoutProjection (plan : Plan ν) : plan.withoutProjection.offers = plan.offers := by
  rw [offers, scans_withoutProjection, offers]

theorem offers_selects (ps : List (ν × Predicate)) (plan : Plan ν) :
    (plan.selects ps).offers = plan.offers := by
  rw [offers, scans_selects, offers]

theorem offers_product (n : ν) (l r : Plan ν) : (product n l r).offers = l.offers ++ r.offers :=
  List.flatMap_append

theorem offers_join (n : ν) (p : JoinPredicate) (l r : Plan ν) :
    (join n p l r).offers = l.offers ++ r.offers :=
  List.flatMap_append

def Everywhere (P : ν → Prop) : Plan ν → Prop
  | scan n _                       => P n
  | select n _ i | project n _ i   => P n ∧ i.Everywhere P
  | product n l r | join n _ l r   => P n ∧ l.Everywhere P ∧ r.Everywhere P

theorem Everywhere.note {P : ν → Prop} (h : plan.Everywhere P) : P plan.note := by
  cases plan
  case scan => exact h
  all_goals exact h.left

theorem Everywhere.withoutProjection {P : ν → Prop} (h : plan.Everywhere P) :
    plan.withoutProjection.Everywhere P := by
  cases plan
  case project => exact h.right
  all_goals exact h

def ProjectionFree : Plan ν → Prop
  | scan _ _                     => True
  | select _ _ i                 => i.ProjectionFree
  | project _ _ _                => False
  | product _ l r | join _ _ l r => l.ProjectionFree ∧ r.ProjectionFree

section Estimated

variable {plan l r q : Plan Relation} {p : Predicate} {j : JoinPredicate}

theorem selecting_eq_ok_iff : selecting p plan = .ok q ↔
    ∃ s, plan.output.select p = .ok s ∧ q = select s p plan := by
  unfold selecting
  cases h : plan.output.select p <;> simp [bind, Except.bind, pure, Except.pure, eq_comm]

theorem selecting_eq_error_iff {e : NegativeTupleCount} :
    selecting p plan = .error e ↔ plan.output.select p = .error e := by
  unfold selecting
  cases h : plan.output.select p <;> simp [bind, Except.bind, pure, Except.pure]

theorem joining_eq_ok_iff : joining j l r = .ok q ↔
    ∃ s, l.output.join r.output j = .ok s ∧ q = join s j l r := by
  unfold joining
  cases h : l.output.join r.output j <;> simp [bind, Except.bind, pure, Except.pure, eq_comm]

theorem joining_eq_error_iff {e : NegativeTupleCount} :
    joining j l r = .error e ↔ l.output.join r.output j = .error e := by
  unfold joining
  cases h : l.output.join r.output j <;> simp [bind, Except.bind, pure, Except.pure]

theorem contents_of_selecting (h : selecting p plan = .ok q) :
    q.contents = .inr p ::ₘ plan.contents := by
  obtain ⟨s, _, rfl⟩ := selecting_eq_ok_iff.mp h
  rfl

theorem contents_of_joining (h : joining j l r = .ok q) :
    q.contents = .inr (.join j) ::ₘ (l.contents + r.contents) := by
  obtain ⟨s, _, rfl⟩ := joining_eq_ok_iff.mp h
  rfl

end Estimated
end Plan
end QueryPlanner
