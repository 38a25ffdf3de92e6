import QueryPlanner.Proofs.Estimate
import QueryPlanner.Proofs.Plan
import QueryPlanner.Proofs.Run

namespace QueryPlanner

open Unlimited

namespace Requirements

theorem mem_names_firstOccurrences {n : String} {as : List Attribute} :
    n ∈ (firstOccurrences as).map Attribute.name ↔ n ∈ as.map Attribute.name := by
  induction as
  case nil => rfl
  case cons a as hi =>
    by_cases h : n = a.name
    case pos => simp [firstOccurrences, h]
    case neg =>
      simp only [firstOccurrences, List.map_cons, List.mem_cons, h, false_or, ← hi, List.mem_map,
        List.mem_filter, decide_eq_true_eq]
      constructor
      · exact fun ⟨b, hb, he⟩ => ⟨b, hb.left, he⟩
      · exact fun ⟨b, hb, he⟩ => ⟨b, ⟨hb, he ▸ h⟩, he⟩

theorem mem_names_presentIn {r : Requirements} {s : Relation} {n : String} :
    n ∈ (r.presentIn s).map Attribute.name ↔ r.isRequired n ∧ s.has n := by
  rw [presentIn, mem_names_firstOccurrences, Relation.has_iff, Relation.names]
  simp only [List.mem_map, List.mem_filter]
  constructor
  · rintro ⟨a, ha, he⟩
    exact ⟨he ▸ ha.right, a, ha.left, he⟩
  · rintro ⟨hr, a, ha, he⟩
    exact ⟨a, ⟨ha, he ▸ hr⟩, he⟩

theorem map_name_firstOccurrences {as bs : List Attribute}
    (h : bs.map Attribute.name = as.map Attribute.name) :
    (firstOccurrences bs).map Attribute.name = (firstOccurrences as).map Attribute.name := by
  induction as generalizing bs
  case nil          => rw [List.map_eq_nil_iff.mp h]
  case cons a as hi =>
    obtain ⟨b, bs, rfl, hb, hbs⟩ := List.map_eq_cons_iff.mp h
    have drop (cs : List Attribute) : (cs.filter (·.name ≠ a.name)).map Attribute.name =
        (cs.map Attribute.name).filter (· ≠ a.name) := by
      rw [List.filter_map, Function.comp_def]
    rw [firstOccurrences, firstOccurrences, hb, List.map_cons, List.map_cons, drop, drop, hi hbs, hb]

theorem map_name_presentIn (r : Requirements) {s t : Relation} (h : t.names = s.names) :
    (r.presentIn t).map Attribute.name = (r.presentIn s).map Attribute.name := by
  have keep (as : List Attribute) : (as.filter (r.isRequired ·.name)).map Attribute.name =
      (as.map Attribute.name).filter r.isRequired := by
    rw [List.filter_map, Function.comp_def]
  refine map_name_firstOccurrences ?_
  rw [keep, keep]
  exact congrArg _ h

end Requirements

-- What narrowing may make of a plan: nothing is done, nothing is left, or something is cut away.
inductive Narrowed (d : Demand) (plan : Plan Relation) : Plan Relation → Prop
  | kept : Narrowed d plan plan
  | emptied (narrowing : d.narrowing)
      (unwanted : ∀ n, plan.output.has n → ¬d.required.isRequired n) : Narrowed d plan .nothing
  | cut (narrowing : d.narrowing) : Narrowed d plan <|
      .projecting ((d.required.presentIn plan.output).map Attribute.name) plan.withoutProjection

namespace Narrowed

variable {d : Demand} {plan q : Plan Relation} {n : String}

theorem eq_of_not_narrowing (h : Narrowed d plan q) (hn : d.narrowing = false) : q = plan := by
  cases h
  case kept => rfl
  all_goals simp_all

theorem has (h : Narrowed d plan q) (hr : d.required.isRequired n) (hn : plan.output.has n) :
    q.output.has n := by
  cases h
  case kept       => exact hn
  case emptied hu => exact absurd hr (hu n hn)
  case cut =>
    rw [Relation.has_iff]
    exact (Relation.names_project ..).symm ▸ Requirements.mem_names_presentIn.mpr ⟨hr, hn⟩

theorem contents (h : Narrowed d plan q) : q.contents = plan.contents ∨ q.contents = 0 := by
  cases h
  case kept    => exact .inl rfl
  case emptied => exact .inr Plan.contents_nothing
  case cut     => exact .inl (Plan.contents_withoutProjection plan)

end Narrowed

def Demand.narrowed (d : Demand) (plan : Plan Relation) : Plan Relation :=
  if d.narrowing = false then
    plan
  else if (d.required.presentIn plan.output).isEmpty then
    .nothing
  else if plan.output.attributes.length ≤ (d.required.presentIn plan.output).length then
    plan
  else
    .projecting ((d.required.presentIn plan.output).map Attribute.name) plan.withoutProjection

theorem Demand.narrowed_narrowed (d : Demand) (plan : Plan Relation) :
    Narrowed d plan (d.narrowed plan) := by
  unfold narrowed
  split
  case isTrue => exact .kept
  case isFalse hn =>
    have hn : d.narrowing := by simpa using hn
    split
    case isFalse =>
      split
      · exact .kept
      · exact .cut hn
    case isTrue he =>
      refine .emptied hn fun n hp hr => ?_
      have := Requirements.mem_names_presentIn.mpr ⟨hr, hp⟩
      simp [List.isEmpty_iff.mp he] at this

theorem Demand.narrowed_nothing (d : Demand) : d.narrowed .nothing = .nothing := by
  have : d.required.presentIn Plan.nothing.output = [] := rfl
  simp [narrowed, this]

theorem narrow_result {F : Failure → Prop} (plan : Plan Relation) (d : Demand) :
    Run.Meets F (narrow plan) d fun q d' => d' = d ∧ q = d.narrowed plan := by
  unfold narrow Demand.narrowed
  refine Run.meets_demand_bind ?_
  simp only [Bool.not_eq_true']
  split
  case isTrue => exact Run.meets_pure ⟨rfl, rfl⟩
  case isFalse =>
    split
    case isTrue => exact Run.meets_report_bind (Run.meets_pure ⟨rfl, rfl⟩)
    case isFalse =>
      split
      · exact Run.meets_pure ⟨rfl, rfl⟩
      · exact Run.meets_pure ⟨rfl, rfl⟩

theorem narrow_meets {F : Failure → Prop} (plan : Plan Relation) (d : Demand) :
    Run.Meets F (narrow plan) d fun q d' => d' = d ∧ Narrowed d plan q :=
  (narrow_result plan d).mono fun _ _ ⟨hd, hq⟩ => ⟨hd, hq ▸ d.narrowed_narrowed plan⟩

end QueryPlanner
