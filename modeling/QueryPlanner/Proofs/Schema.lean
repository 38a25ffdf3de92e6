import QueryPlanner.Proofs.Conservation
import QueryPlanner.Proofs.Consistency
import QueryPlanner.Proofs.ParallelReshape

namespace QueryPlanner

open Run (Meets)
open Unlimited

variable {ν : Type} {options : Options} {plan : Plan ν} {q : Plan Relation} {d : Demand}
variable {names : List String}

def Plan.Projects (names : List String) (q : Plan Relation) : Prop :=
  ∃ s input, q = .project s names input ∧ s.names = names

theorem ensureProjection_projects (names : List String) (h : q.Consistent) :
    (ensureProjection names q).Projects names := by
  have projecting (names : List String) (input : Plan Relation) :
      (Plan.projecting names input).Projects names :=
    ⟨_, input, rfl, Relation.names_project ..⟩
  unfold ensureProjection
  split
  case h_2 => exact projecting names _
  case h_1 as input =>
    split
    case isFalse   => exact projecting names input
    case isTrue he =>
      obtain ⟨_, rfl⟩ := Plan.consistent_project.mp h
      exact he ▸ projecting as input

theorem underProjection_projects {input : Run (Plan Relation)} {F : Failure → Prop}
    (h : Meets F input { d.requireAll names with narrowing := options.pushProjections }
      fun q _ => q.Consistent) :
    Meets F (underProjection options names input) d fun q _ => q.Projects names := by
  refine Run.meets_demand_bind <| Run.meets_modify_bind <| h.bind fun q d' hq => ?_
  refine (narrow_meets q d').bind fun q' _ ⟨_, hn⟩ => Run.meets_modify_bind <| Run.meets_pure ?_
  exact ensureProjection_projects names (PlanInvariant.consistent.narrowed hq False.elim hn)

theorem reshape_projects {n : ν} {ps : List (ν × Predicate)} {input : Plan ν} :
    Meets (fun _ => True) (reshape options ((Plan.project n names input).selects ps)) {}
      fun q _ => q.Projects names := by
  have hc : Demand.Covers { (Demand.deferAll {} (ps.map (·.2))).requireAll names with
      narrowing := options.pushProjections } (names + 0) :=
    (Demand.covers_empty.deferAll _).requireAll names
  have hi : Meets (fun _ => True) (Reshaping.ofPlan options input).plan _ _ :=
    (Reshaping.ofPlan_takes .consistent input (fun _ _ => rfl) nofun nofun hc rfl).plan
  unfold Meets
  rw [reshape, Reshaping.plan_selects]
  exact underProjection_projects (hi.mono fun q _ y => y.good q (List.mem_singleton_self q))

structure Plan.Whole (q : Plan Relation) : Prop where
  populated  : q.Populated
  projection : q.ProjectionFree
  names      : q.output.names = q.offers

theorem PlanInvariant.whole : PlanInvariant True Plan.Whole (fun _ => False) where
  nothing hx             := absurd trivial hx
  project hx             := absurd trivial hx
  inner {plan} h         := by
    cases plan
    case project => exact h.projection.elim
    all_goals exact h
  present hx _ h         := populated.present hx h.populated
  product {l r} hl hr    := {
    populated  := populated.product hl.populated hr.populated
    projection := ⟨hl.projection, hr.projection⟩
    names      := by
      rw [Plan.multiplying, Plan.offers_product]
      exact (Relation.names_product ..).trans (congrArg₂ _ hl.names hr.names)
  }
  select hg hn hq        := by
    have hp := populated.select hg.populated hn hq
    obtain ⟨s, hs, rfl⟩ := Plan.selecting_eq_ok_iff.mp hq
    exact ⟨hp, hg.projection, (Relation.names_select hs).trans hg.names⟩
  select_failure hg      := populated.select_failure hg.populated
  join hl hr hl' hr' hq  := by
    have hp := populated.join hl.populated hr.populated hl' hr' hq
    obtain ⟨s, hs, rfl⟩ := Plan.joining_eq_ok_iff.mp hq
    refine ⟨hp, ⟨hl.projection, hr.projection⟩, ?_⟩
    rw [Plan.offers_join]
    exact (Relation.names_join hs).trans (congrArg₂ _ hl.names hr.names)
  join_failure hl hr     := populated.join_failure hl.populated hr.populated

theorem reshape_whole (options : Options) (hf : plan.ProjectionFree)
    (hs : ∀ r ∈ plan.scans, r.statistics.Populated ∧ r.isPlaceholder = false) :
    Meets (fun _ => False) (reshape options plan) {} fun q _ => q.output.names.Perm plan.offers := by
  have hg (r) (hr : r ∈ plan.scans) : (Plan.scanning r).Whole :=
    ⟨.scanning (hs r hr).left (hs r hr).right, trivial, (List.append_nil _).symm⟩
  have h : Meets (fun _ => False) (Reshaping.ofPlan options plan).plan {} _ :=
    (Reshaping.ofPlan_takes .whole plan hg (fun _ => hf) (fun _ => rfl) Demand.covers_empty rfl).plan
  refine h.mono fun q d y => ?_
  have hq := y.good q (List.mem_singleton_self q)
  have hc : Conserved plan q d := {
    present  := hq.populated.filter_scans
    contents := by simpa [Demand.pending] using y.retained.right trivial
  }
  obtain ⟨hp, _⟩ := hc.perm fun r hr he => absurd (hs r hr).right (by rw [he]; decide)
  exact hq.names ▸ hp.flatMap_right _

-- The optimiser keeps the schema. Either some predicate found no place and nothing is left, or the
-- attributes are those of the projection, in its order, or if there is none those of all relations.
theorem optimise_schema (options : Options) (plan : Plan ν) :
    (∀ ps n names input, plan = (Plan.project n names input).selects ps →
      (∀ r ∈ plan.scans, r.statistics.Counts 0) →
      ∃ o, optimise options plan = .ok o ∧
        (o.value = .nothing ∧ o.demand.unmatched ≠ [] ∧ .unmatched o.demand.unmatched ∈ o.events ∨
          ∃ s input, o.value = .project s names input ∧ s.names = names)) ∧
    (plan.ProjectionFree →
      (∀ r ∈ plan.scans, r.statistics.Populated ∧ r.isPlaceholder = false) →
      ∃ o, optimise options plan = .ok o ∧
        (o.value = .nothing ∧ o.demand.unmatched ≠ [] ∧ .unmatched o.demand.unmatched ∈ o.events ∨
          o.value.output.names.Perm (plan.scans.flatMap (·.statistics.names)))) := by
  have concluded {P : Plan Relation → Prop} {r : Outcome (Plan Relation)}
      (hr : reshape options plan {} = .ok r) (hp : P r.value) :
      ∃ o, optimise options plan = .ok o ∧
        (o.value = .nothing ∧ o.demand.unmatched ≠ [] ∧ .unmatched o.demand.unmatched ∈ o.events ∨
          P o.value) := by
    by_cases hu : r.demand.unmatched = []
    case pos => exact ⟨_, optimise_eq_ok_iff.mpr ⟨r, hr, .inl ⟨hu, rfl⟩⟩, .inr hp⟩
    case neg => exact ⟨_, optimise_eq_ok_iff.mpr ⟨r, hr, .inr ⟨hu, rfl⟩⟩, .inl ⟨rfl, hu, by simp⟩⟩
  constructor
  · rintro ps n names input rfl hs
    obtain ⟨r, hr⟩ : ∃ r, reshape options _ {} = .ok r := reshape_returns hs
    exact concluded (P := Plan.Projects names) hr (reshape_projects.elim hr)
  · intro hf hs
    obtain ⟨r, hr, hp⟩ := (reshape_whole options hf hs).returns
    exact concluded (P := fun q => q.output.names.Perm plan.offers) hr hp

def doubled : Plan Unit :=
  .select () (.value { occurrence := 0, name := "b", value := "x" }) <|
  .project () ["c", "b", "c"] <|
  .product ()
    (.scan () { name := "r", statistics := .of 4 [⟨"a", 2⟩, ⟨"b", 0⟩] })
    (.scan () { name := "s", statistics := .of 3 [⟨"c", 3⟩] })

def related : Plan Unit :=
  .join () { occurrence := 0, left := "b", right := "c" }
    (.scan () { name := "r", statistics := .of 4 [⟨"a", 2⟩, ⟨"b", 2⟩] })
    (.scan () { name := "s", statistics := .of 3 [⟨"c", 3⟩] })

theorem optimise_schema_doubled :
    ((∀ r ∈ doubled.scans, r.statistics.Counts 0) ∧ ∃ o, optimise {} doubled = .ok o ∧
      (o.value = .nothing ∧ o.demand.unmatched ≠ [] ∧ .unmatched o.demand.unmatched ∈ o.events ∨
        ∃ s input, o.value = .project s ["c", "b", "c"] input ∧ s.names = ["c", "b", "c"])) ∧
    ((related.ProjectionFree ∧
        ∀ r ∈ related.scans, r.statistics.Populated ∧ r.isPlaceholder = false) ∧
      ∃ o, optimise {} related = .ok o ∧
        (o.value = .nothing ∧ o.demand.unmatched ≠ [] ∧ .unmatched o.demand.unmatched ∈ o.events ∨
          o.value.output.names.Perm (related.scans.flatMap (·.statistics.names)))) := by
  have hd : ∀ r ∈ doubled.scans, r.statistics.Counts 0 := by decide
  have hf : related.ProjectionFree := ⟨trivial, trivial⟩
  have hr : ∀ r ∈ related.scans, r.statistics.Populated ∧ r.isPlaceholder = false := by decide
  refine ⟨⟨hd, ?_⟩, ⟨hf, hr⟩, (optimise_schema {} related).right hf hr⟩
  exact (optimise_schema {} doubled).left
    [((), .value { occurrence := 0, name := "b", value := "x" })] () ["c", "b", "c"] _ rfl hd

example : (optimise {} doubled).toOption.map (fun o => (o.value.text, o.value.output.names)) =
    some ("PROJECT [c,b,c] (s)", ["c", "b", "c"]) := by
  cbv

end QueryPlanner
