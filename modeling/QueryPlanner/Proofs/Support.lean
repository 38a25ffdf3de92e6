import QueryPlanner.Proofs.Conservation

namespace QueryPlanner

open Unlimited

variable {ν : Type} {options : Options} {plan : Plan ν} {o : Outcome (Plan Relation)}

-- Every predicate finds its attributes where it looks for them, and what comes out is estimated with
-- them: a selection finds them in its input, and a join the left one on its left and the right one on
-- its right.
def Plan.Supported : Plan Relation → Prop
  | scan _ _      => True
  | select n p i  => (∀ a ∈ p.attributes, i.output.has a) ∧ i.output.select p = .ok n ∧ i.Supported
  | project _ _ i => i.Supported
  | product _ l r => l.Supported ∧ r.Supported
  | join n p l r  =>
    (l.output.has p.left ∧ r.output.has p.right) ∧ l.output.join r.output p = .ok n ∧
      l.Supported ∧ r.Supported

theorem PlanInvariant.supported : PlanInvariant False Plan.Supported (fun _ => True) where
  nothing _              := trivial
  project _ _ _ h        := h
  inner {plan} h         := by cases plan <;> exact h
  present                := False.elim
  product hl hr          := ⟨hl, hr⟩
  select hg hn hq        := by
    obtain ⟨s, hs, rfl⟩ := Plan.selecting_eq_ok_iff.mp hq
    exact ⟨hn, hs, hg⟩
  select_failure _ _ _   := trivial
  join hl hr hl' hr' hq  := by
    obtain ⟨s, hs, rfl⟩ := Plan.joining_eq_ok_iff.mp hq
    exact ⟨⟨hl', hr'⟩, hs, hl, hr⟩
  join_failure _ _ _ _ _ := trivial

theorem optimise_supported (h : optimise options plan = .ok o) :
    o.value.Supported ∧ o.value.predicates.Subperm plan.predicates :=
  ⟨(optimise_meets .supported fun _ _ => trivial).elim h,
    (subperm_of_contents_le (contents_le_of_optimise h)).right⟩

def twiceJoined : Plan Unit :=
  .project () ["c"] <|
  .select () (.join { occurrence := 0, left := "a", right := "d" }) <|
  .select () (.join { occurrence := 1, left := "e", right := "b" }) <|
  .product ()
    (.scan () { name := "r", statistics := .of 4 [⟨"a", 2⟩, ⟨"b", 2⟩] })
    (.scan () { name := "s", statistics := .of 3 [⟨"c", 3⟩, ⟨"d", 2⟩, ⟨"e", 1⟩] })

theorem optimise_supported_twiceJoined : ∃ o, optimise {} twiceJoined = .ok o ∧
    o.value.Supported ∧ o.value.predicates.Subperm twiceJoined.predicates := by
  have hs : ∀ r ∈ twiceJoined.scans, r.statistics.Counts 0 := by decide
  have hm : Run.Meets _ (reshape {} twiceJoined >>= conclude) {} _ := optimise_meets .nonneg hs
  have ⟨o, ho, _⟩ := hm.returns
  exact ⟨o, ho, optimise_supported ho⟩

example : (optimise {} twiceJoined).toOption.map (·.value.text) =
    some "PROJECT [c] (SELECT [e=b] (PROJECT [b,c,e] ((r) JOIN [a=d] (s))))" := by
  cbv

end QueryPlanner
