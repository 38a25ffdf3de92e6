import QueryPlanner.Proofs.Estimate
import QueryPlanner.Proofs.JoinOrder.Choice
import QueryPlanner.Proofs.Plan
import QueryPlanner.Proofs.TextOrder

namespace QueryPlanner

namespace Plan

def stack (ps : List Predicate) (plan : Plan Relation) : Except NegativeTupleCount (Plan Relation) :=
  ps.foldlM (fun q p => selecting p q) plan

section Stack

variable {ps qs : List Predicate} {p : Predicate} {plan q : Plan Relation}

theorem stack_nil : stack [] plan = .ok q ↔ q = plan := by
  simp [stack, pure, Except.pure, eq_comm]

theorem stack_cons : stack (p :: ps) plan = .ok q ↔
    ∃ s, selecting p plan = .ok s ∧ stack ps s = .ok q := by
  rw [stack, List.foldlM_cons]
  cases selecting p plan <;> simp [bind, Except.bind, stack]

theorem stack_append : stack (ps ++ qs) plan = .ok q ↔
    ∃ s, stack ps plan = .ok s ∧ stack qs s = .ok q := by
  induction ps generalizing plan
  case nil          => simp [stack_nil]
  case cons p ps hi =>
    simp only [List.cons_append, stack_cons, hi]
    constructor
    · exact fun ⟨s, hs, t, ht, hq⟩ => ⟨t, ⟨s, hs, ht⟩, hq⟩
    · exact fun ⟨t, ⟨s, hs, ht⟩, hq⟩ => ⟨s, hs, t, ht, hq⟩

theorem stack_eq_selects (h : stack ps plan = .ok q) :
    ∃ ns : List (Relation × Predicate), q = plan.selects ns ∧ ns.map (·.2) = ps.reverse := by
  induction ps generalizing plan
  case nil          => exact ⟨[], stack_nil.mp h, rfl⟩
  case cons p ps hi =>
    have ⟨s, hs, hq⟩ := stack_cons.mp h
    obtain ⟨o, _, rfl⟩ := selecting_eq_ok_iff.mp hs
    have ⟨ns, hns, hp⟩ := hi hq
    refine ⟨ns ++ [(o, p)], ?_, by simp [hp]⟩
    rw [hns, selects, selects, List.foldr_append]
    rfl

theorem names_of_stack (h : stack ps plan = .ok q) : q.output.names = plan.output.names := by
  induction ps generalizing plan
  case nil          => rw [stack_nil.mp h]
  case cons p ps hi =>
    have ⟨s, hs, hq⟩ := stack_cons.mp h
    obtain ⟨o, ho, rfl⟩ := selecting_eq_ok_iff.mp hs
    exact (hi hq).trans (Relation.names_select ho)

theorem has_of_stack (h : stack ps plan = .ok q) (n : String) : q.output.has n = plan.output.has n :=
  Relation.has_eq_of_names (names_of_stack h) n

theorem predicates_of_stack (h : stack ps plan = .ok q) :
    q.predicates = ps.reverse ++ plan.predicates := by
  obtain ⟨ns, rfl, hns⟩ := stack_eq_selects h
  rw [predicates_selects, hns]

theorem Everywhere.of_stack {P : Relation → Prop} (hq : q.Everywhere P) (h : stack ps plan = .ok q) :
    plan.Everywhere P := by
  obtain ⟨ns, rfl, -⟩ := stack_eq_selects h
  clear h
  induction ns
  case nil          => exact hq
  case cons n ns hi => exact hi hq.right

end Stack

variable {ν : Type}

def factors : Plan ν → List (Plan ν)
  | product _ l r => l.factors ++ r.factors
  | plan          => [plan]

-- No products below the root, and no join that drops one of its inputs when it is searched for again.
def Tidy : Plan Relation → Prop
  | scan _ _      => True
  | select _ _ i  => i.Tidy
  | project _ _ _ => False
  | product _ _ _ => False
  | join _ _ l r  => (0 < l.tupleCount ∧ l.Tidy) ∧ 0 < r.tupleCount ∧ r.Tidy

section Tidy

variable {ps : List Predicate} {plan q : Plan Relation}

theorem Tidy.factors_eq (h : plan.Tidy) : plan.factors = [plan] := by
  cases plan
  case product => exact h.elim
  all_goals rfl

theorem Tidy.of_stack (hq : q.Tidy) (h : stack ps plan = .ok q) : plan.Tidy := by
  obtain ⟨ns, rfl, -⟩ := stack_eq_selects h
  clear h
  induction ns
  case nil          => exact hq
  case cons n ns hi => exact hi hq

theorem factors_of_stack (h : stack ps plan = .ok q) (hp : ps ≠ []) : q.factors = [q] := by
  obtain ⟨ns, rfl, hns⟩ := stack_eq_selects h
  cases ns
  case nil  => exact absurd (List.reverse_eq_nil_iff.mp hns.symm) hp
  case cons => rfl

end Tidy
end Plan

def Plan.Apart (p q : Plan Relation) : Prop :=
  ∀ n, p.output.has n → q.output.has n = false

theorem Plan.Apart.symm {p q : Plan Relation} (h : p.Apart q) : q.Apart p := fun n hq => by
  rw [← Bool.not_eq_true]
  intro hp
  simp [h n hp] at hq

def NamedRelation.decides (r : NamedRelation) (p : JoinPredicate) : Bool :=
  !p.isSameName && r.has p.left && r.has p.right

def Rival (l r top : Plan Relation) (j p : JoinPredicate) : Prop :=
  ∃ x y q, (x = l ∧ y = r ∨ x = r ∧ y = l) ∧ x.output.has p.left ∧ y.output.has p.right ∧
    Plan.joining p x y = .ok q ∧ toLex (top.tupleCount, j.text) ≤ toLex (q.tupleCount, p.text)

-- A join of two plans with further selections on top: the join was the cheapest one between them, and
-- the selections follow each other in the order of their texts.
structure Joint (j : JoinPredicate) (qs : List JoinPredicate) (l r top q : Plan Relation) : Prop where
  leftTuples   : 0 < l.tupleCount
  rightTuples  : 0 < r.tupleCount
  leftPresent  : l.isPlaceholder = false
  rightPresent : r.isPlaceholder = false
  apart        : l.Apart r
  leftSide     : l.output.has j.left
  rightSide    : r.output.has j.right
  joined       : Plan.joining j l r = .ok top
  rivals       : ∀ p ∈ qs, Rival l r top j p
  order        : InTextOrder JoinPredicate.text qs
  stacked      : Plan.stack (qs.map .join) top = .ok q

inductive Steady : Plan Relation → Prop
  | scan {r : NamedRelation} {ps : List ValuePredicate} {qs : List JoinPredicate} {q : Plan Relation}
    (values : ∀ p ∈ ps, r.has p.name) (joins : ∀ p ∈ qs, r.decides p)
    (valuesOrder : InTextOrder ValuePredicate.text ps)
    (joinsOrder : InTextOrder JoinPredicate.text qs)
    (stacked : Plan.stack (ps.map .value ++ qs.map .join) (.scanning r) = .ok q) : Steady q
  | join {j : JoinPredicate} {qs : List JoinPredicate} {l r top q : Plan Relation}
    (left : Steady l) (right : Steady r) (joint : Joint j qs l r top q) : Steady q

namespace Steady

variable {q : Plan Relation}

theorem scanning (r : NamedRelation) : Steady (.scanning r) :=
  @Steady.scan r [] [] _ nofun nofun .nil .nil (Plan.stack_nil.mpr rfl)

theorem ne_product (h : Steady q) (n : Relation) (l r : Plan Relation) : q ≠ .product n l r := by
  have stacked {ps plan} (hq : Plan.stack ps plan = .ok q) (hp : plan ≠ .product n l r) :
      q ≠ .product n l r := by
    obtain ⟨ns, rfl, -⟩ := Plan.stack_eq_selects hq
    cases ns
    case nil  => exact hp
    case cons => exact nofun
  cases h
  case scan hq => exact stacked hq nofun
  case join hj =>
    have ⟨s, _, htop⟩ := Plan.joining_eq_ok_iff.mp hj.joined
    exact stacked hj.stacked (htop ▸ nofun)

theorem factors_eq (h : Steady q) : q.factors = [q] := by
  cases q
  case product n l r => exact absurd rfl (h.ne_product n l r)
  all_goals rfl

end Steady
end QueryPlanner
