import QueryPlanner.Proofs.Reshape
import QueryPlanner.Proofs.Safety
import QueryPlanner.Proofs.Store

namespace QueryPlanner

open Unlimited

variable {ν : Type} {options : Options} {plan : Plan ν} {o : Outcome (Plan Relation)}

-- What the optimiser leaves on the nodes of its result is what an estimate of the result would put
-- there. So if a copy of the result is estimated in a store, whatever stood on its nodes before, then
-- each of its nodes gets the output that it has in the result.
theorem optimise_reestimated (h : optimise options plan = .ok o) :
    o.value.bare.estimate = .ok o.value ∧
    ∀ (s : Store) (i : Nat), s.Paired → (s.plan? i).map Plan.bare = some o.value.bare →
      (s.estimatePlan i).2 = .ok o.value.output ∧
        (s.estimatePlan i).1.plan? i = some (o.value.map some) := by
  have hq : o.value.estimate = .ok o.value := (optimise_meets .consistent fun _ _ => rfl).elim h
  refine ⟨(Plan.estimate_map ..).trans hq, fun s i hs hb => ?_⟩
  obtain ⟨p, hp, he⟩ := Option.map_eq_some_iff.mp hb
  refine Store.estimatePlan_eq hp ?_ hs
  calc p.estimate
    _ = p.bare.estimate       := (Plan.estimate_map ..).symm
    _ = o.value.bare.estimate := by rw [he]
    _ = .ok o.value           := (Plan.estimate_map ..).trans hq

def barrenStore : Store where
  relations := [
    { name := "r", statistics := .of 4 [⟨"a", 2⟩, ⟨"b", 0⟩] },
    { name := "s", statistics := .of 3 [⟨"c", 9⟩, ⟨"d", 0⟩] }]
  nodes     := [
    .scan 0,
    .select (.value { occurrence := 0, name := "a", value := "x" }) 0,
    .project ["b"] 1,
    .scan 1,
    .join { occurrence := 1, left := "b", right := "d" } 2 3,
    .project ["c", "y"] 4]
  outputs   := List.replicate 6 none
  ordered   := by
    rintro (_ | _ | _ | _ | _ | _ | i) n hn
    all_goals cases hn
    all_goals decide

theorem optimise_reestimated_barren : ∃ o, optimise {} barren = .ok o ∧
    o.value.bare.estimate = .ok o.value ∧
    barrenStore.Paired ∧ (barrenStore.plan? 5).map Plan.bare = some o.value.bare ∧
    (barrenStore.estimatePlan 5).2 = .ok o.value.output ∧
      (barrenStore.estimatePlan 5).1.plan? 5 = some (o.value.map some) := by
  have hs : ∀ r ∈ barren.scans, r.statistics.Counts 0 := by decide
  have hm : Run.Meets _ (reshape {} barren >>= conclude) {} _ := optimise_meets .nonneg hs
  obtain ⟨o, ho, _⟩ := hm.returns
  replace ho : optimise {} barren = .ok o := ho
  have hb : (barrenStore.plan? 5).map Plan.bare = (optimise {} barren).toOption.map (·.value.bare) := by
    decide +kernel
  rw [ho] at hb
  have he := optimise_reestimated ho
  exact ⟨o, ho, he.left, rfl, hb, he.right barrenStore 5 rfl hb⟩

end QueryPlanner
