import QueryPlanner.Proofs.Collapse
import QueryPlanner.Query.Canonical

namespace QueryPlanner

def Plan.joinNumbers {ν : Type} (plan : Plan ν) : List Nat :=
  (plan.predicates.filterMap Predicate.join?).map JoinPredicate.occurrence

-- The plan of a query numbers its predicates as they are written, and has the last one outermost.

namespace Query

theorem selections_eq (tree : Plan Unit) (cs : List Condition) :
    selections tree cs = tree.selects (cs.zipIdx.reverse.map fun c => ((), c.1.numbered c.2)) := by
  rw [selections, List.foldl_eq_foldr_reverse, Plan.selects, List.foldr_map]

theorem occurrence_numbered (i : Nat) (c : Condition) : (c.numbered i).occurrence = i := by
  cases c <;> rfl

variable {c : Catalogue} {plan tree : Plan Unit}

theorem scan_isProducts {s : Source} (h : scan c s = .ok plan) : plan.IsProducts := by
  unfold scan at h
  split at h
  case h_1 => cases h
  case h_2 => cases h
  case h_3 =>
    obtain ⟨r, _, h⟩ := bind_eq_ok h
    cases h
    trivial

theorem joins_isProducts {js : List Join} {cs : List Condition} (ht : tree.IsProducts)
    (h : joins c tree js = .ok (plan, cs)) : plan.IsProducts := by
  induction js generalizing tree plan cs
  case nil => cases h; exact ht
  case cons j js hi =>
    rw [joins] at h
    split at h
    case isTrue  => cases h
    case isFalse =>
      dsimp only at h
      split at h
      case isTrue  => cases h
      case isFalse =>
        obtain ⟨scan, hs, h⟩ := bind_eq_ok h
        obtain ⟨before, _, h⟩ := bind_eq_ok h
        obtain ⟨⟨tree', after⟩, hj, h⟩ := bind_eq_ok h
        cases h
        have hp : (Plan.product () tree scan).IsProducts := ⟨ht, scan_isProducts hs⟩
        exact hi hp hj

theorem plan_of_selection {s : Selection} (h : s.plan c = .ok plan) : ∃ tree cs, tree.IsProducts ∧
    (plan = selections tree cs ∨ ∃ names, plan = .project () names (selections tree cs)) := by
  rw [Selection.plan] at h
  split at h
  case h_1 => cases h
  case h_2 =>
    obtain ⟨source, _, h⟩ := bind_eq_ok h
    obtain ⟨first, hf, h⟩ := bind_eq_ok h
    obtain ⟨⟨tree, joined⟩, hj, h⟩ := bind_eq_ok h
    obtain ⟨selected, _, h⟩ := bind_eq_ok h
    refine ⟨tree, joined ++ selected, joins_isProducts (scan_isProducts hf) hj, ?_⟩
    dsimp only at h
    split at h
    case h_1 => cases h; exact .inl rfl
    case h_2 =>
      split at h
      case isTrue  => cases h
      case isFalse =>
        obtain ⟨names, _, h⟩ := bind_eq_ok h
        cases h
        exact .inr ⟨names, rfl⟩

theorem canonical_selections {cs : List Condition} (ht : tree.IsProducts) (names : List String) :
    (selections tree cs).Canonical ∧ (Plan.project () names (selections tree cs)).Canonical := by
  rw [selections_eq]
  exact ⟨.plain _ ht, .projected () names _ ht⟩

theorem predicates_selections (ht : tree.IsProducts) (cs : List Condition) :
    (selections tree cs).predicates = (cs.zipIdx.map fun c => c.1.numbered c.2).reverse := by
  rw [selections_eq, ht.predicates_selects, List.map_map, List.map_reverse]
  rfl

theorem numbers_descend (ht : tree.IsProducts) (cs : List Condition) :
    ((selections tree cs).predicates.map Predicate.occurrence).Pairwise (· > ·) := by
  have hn : (cs.zipIdx.map fun c => c.1.numbered c.2).map Predicate.occurrence =
      List.range' 0 cs.length := by
    rw [List.map_map, ← List.zipIdx_map_snd 0 cs]
    exact List.map_congr_left fun c _ => occurrence_numbered c.2 c.1
  rw [predicates_selections ht, List.map_reverse, hn, List.pairwise_reverse]
  exact List.pairwise_lt_range'

theorem joinNumbers_sublist {ν : Type} (plan : Plan ν) :
    plan.joinNumbers.Sublist (plan.predicates.map Predicate.occurrence) := by
  rw [Plan.joinNumbers]
  induction plan.predicates
  case nil => exact .slnil
  case cons p ps hi =>
    cases p
    case join  => exact hi.cons_cons _
    case value => exact hi.cons _

theorem canonical_of_planBy {read : String → Option Statement} {text : String}
    (h : planBy read c text = .ok plan) : plan.Canonical ∧ plan.joinNumbers.Pairwise (· > ·) := by
  rw [planBy] at h
  split at h
  case h_1 => cases h
  case h_2 =>
    split at h
    case h_1 => cases h
    case h_2 => cases h
    case h_3 =>
      obtain ⟨tree, cs, ht, rfl | ⟨names, rfl⟩⟩ := plan_of_selection h
      all_goals have hn := (numbers_descend ht cs).sublist (joinNumbers_sublist (selections tree cs))
      · exact ⟨(canonical_selections ht []).left, hn⟩
      · exact ⟨(canonical_selections ht names).right, hn⟩

end Query

end QueryPlanner
