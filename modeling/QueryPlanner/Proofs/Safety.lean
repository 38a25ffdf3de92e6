import QueryPlanner.Proofs.Reshape

namespace QueryPlanner

open Unlimited

variable {ν : Type} {plan : Plan ν}

def Relation.Bounded (r : Relation) : Prop :=
  ∀ a ∈ r.attributes, 0 ≤ a.valueCount ∧ a.valueCount ≤ r.tupleCount

theorem Relation.Counts.bounded {r : Relation} (h : r.Counts 0) : r.Bounded :=
  fun a ha => ⟨h a ha, r.capped a ha⟩

theorem Plan.Everywhere.imp {μ : Type} {P Q : μ → Prop} {plan : Plan μ} (h : plan.Everywhere P)
    (hi : ∀ n, P n → Q n) : plan.Everywhere Q := by
  induction plan
  case scan              => exact hi _ h
  case select hp         => exact ⟨hi _ h.left, hp h.right⟩
  case project hp        => exact ⟨hi _ h.left, hp h.right⟩
  case product hl hr     => exact ⟨hi _ h.left, hl h.right.left, hr h.right.right⟩
  case join hl hr        => exact ⟨hi _ h.left, hl h.right.left, hr h.right.right⟩

-- Predicates are pending when they are placed, every handle stands for a component, and the search comes
-- to an end. Without counts below zero in the relations there is none in the result either.
theorem optimise_bounded (options : Options) (plan : Plan ν) :
    (∀ e, optimise options plan = .error e → ∃ n, e = .negativeTupleCount n) ∧
    ((∀ r ∈ plan.scans, r.statistics.Counts 0) →
      ∃ o, optimise options plan = .ok o ∧ o.value.Everywhere Relation.Bounded) := by
  refine ⟨fun e he => (optimise_meets .any fun _ _ => trivial).failure he, fun hs => ?_⟩
  have hm : Run.Meets _ (reshape options plan >>= conclude) {} _ := optimise_meets .nonneg hs
  have ⟨o, ho, hv⟩ := hm.returns
  exact ⟨o, ho, hv.imp fun _ hr => hr.bounded⟩

def barren : Plan Unit :=
  .project () ["c", "y"] <|
  .select () (.value { occurrence := 0, name := "a", value := "x" }) <|
  .join () { occurrence := 1, left := "b", right := "d" }
    (.scan () { name := "r", statistics := .of 4 [⟨"a", 2⟩, ⟨"b", 0⟩] })
    (.scan () { name := "s", statistics := .of 3 [⟨"c", 9⟩, ⟨"d", 0⟩] })

end QueryPlanner
