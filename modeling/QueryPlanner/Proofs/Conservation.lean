import QueryPlanner.Proofs.Reshape

namespace QueryPlanner

open Run (Meets)
open Unlimited

variable {ν : Type} {exact : Prop} {G : Plan Relation → Prop} {F : Failure → Prop} {mode : Bool}
variable {kept : Multiset String} {qs : List (Plan Relation)} {q : Plan Relation} {d : Demand}
variable {options : Options} {plan : Plan ν} {o : Outcome (Plan Relation)}

-- Nothing is invented, whatever the plan.

theorem subperm_of_contents_le {μ : Type} {q : Plan μ} (h : q.contents ≤ plan.contents) :
    (q.scans.filter (· ≠ .placeholder)).Subperm plan.scans ∧ q.predicates.Subperm plan.predicates := by
  have hr := Multiset.filterMap_le_filterMap Sum.getLeft? h
  have hp := Multiset.filterMap_le_filterMap Sum.getRight? h
  rw [Plan.relations_of_contents, Plan.relations_of_contents, Multiset.coe_le] at hr
  rw [Plan.predicates_of_contents, Plan.predicates_of_contents, Multiset.coe_le] at hp
  exact ⟨hr.trans List.filter_sublist.subperm, hp⟩

theorem contents_le_of_optimise (h : optimise options plan = .ok o) :
    o.value.contents ≤ plan.contents := by
  have hy : Meets _ (reshape options plan) {} _ :=
    (Reshaping.ofPlan_takes .any plan (fun _ _ => trivial) nofun nofun Demand.covers_empty rfl).plan
  obtain ⟨r, hr, ⟨_, rfl⟩ | ⟨_, rfl⟩⟩ := optimise_eq_ok_iff.mp h
  · have hle := (hy.elim hr).retained.left
    simp only [List.map_cons, List.map_nil, List.sum_cons, List.sum_nil, add_zero, Demand.pending,
      Multiset.coe_nil, Multiset.map_zero] at hle
    exact (Multiset.le_add_right ..).trans hle
  · rw [Plan.contents_nothing]
    exact Multiset.zero_le _

-- Nothing is lost where nothing is empty.

structure Conserved (plan : Plan ν) (q : Plan Relation) (d : Demand) : Prop where
  present  : q.scans.filter (· ≠ .placeholder) = q.scans
  contents : q.contents + d.pending.map .inr = plan.contents

theorem scans_ensureProjection (names : List String) (plan : Plan Relation) :
    (ensureProjection names plan).scans = plan.scans := by
  unfold ensureProjection
  split
  case h_1 => split <;> rfl
  case h_2 => rfl

theorem ofPlan_conserves (hs : ∀ r ∈ plan.scans, (Plan.scanning r).Populated)
    (hf : plan.ProjectionFree) (hm : mode = false) (hc : d.Covers kept) (hn : d.narrowing = mode) :
    Meets (fun _ => False) (Reshaping.ofPlan options plan).plan d fun q d' =>
      Yields True Plan.Populated mode kept (plan.contents + d.pending.map .inr) [q] d' :=
  (Reshaping.ofPlan_takes .populated plan hs (fun _ => hf) (fun _ => hm) hc hn).plan

theorem reshape_conserves (ho : options.pushProjections = false)
    (hf : plan.withoutProjection.ProjectionFree)
    (hs : ∀ r ∈ plan.scans, (Plan.scanning r).Populated) :
    Meets (fun _ => False) (reshape options plan) {} (Conserved plan) := by
  have conserved {ν : Type} {plan : Plan ν} {q : Plan Relation} {d : Demand} {mode : Bool}
      {names : Multiset String}
      (y : Yields True Plan.Populated mode names (plan.contents + Multiset.map .inr 0) [q] d) :
      Conserved plan q d :=
    { present  := (y.good q (List.mem_singleton_self q)).filter_scans
      contents := by simpa using y.retained.right trivial }
  have free (hf : plan.ProjectionFree) :
      Meets (fun _ => False) (reshape options plan) {} (Conserved plan) :=
    (ofPlan_conserves hs hf rfl Demand.covers_empty rfl).mono fun _ _ => conserved
  cases plan
  case project names i =>
    have hd : ({ Demand.requireAll {} names with narrowing := options.pushProjections } : Demand).Covers
      (names + 0) := Demand.covers_empty.requireAll names
    have hi : Meets _ (Reshaping.ofPlan options i).plan _ _ := ofPlan_conserves hs hf ho hd rfl
    have hp : Demand.pending { Demand.requireAll {} names with narrowing := options.pushProjections } =
      0 := Demand.pending_requireAll ..
    rw [hp] at hi
    refine (underProjection_meets (d := {}) .populated (fun _ => ho) hi).mono fun q d' ⟨q', he, y⟩ => ?_
    have ⟨hq, hc⟩ := conserved y
    subst he
    exact {
      present  := (scans_ensureProjection names q').symm ▸ hq
      contents := (contents_ensureProjection names q').symm ▸ hc
    }
  all_goals exact free hf

theorem pending_of_unmatched (h : d.unmatched = []) :
    d.pending = (d.joins.map Predicate.join : List Predicate) ∧ ∀ p ∈ d.joins, p.isSameName := by
  have ⟨hs, hj⟩ := List.append_eq_nil_iff.mp h
  have hs : d.selects = [] := List.map_eq_nil_iff.mp hs
  have hj := List.filter_eq_nil_iff.mp (List.map_eq_nil_iff.mp hj)
  refine ⟨by simp [Demand.pending, hs], fun p hp => by simpa using hj p hp⟩

theorem Conserved.perm (h : Conserved plan q d) (hs : ∀ r ∈ plan.scans, r ≠ .placeholder) :
    q.scans.Perm plan.scans ∧ (plan.predicates : Multiset Predicate) = q.predicates + d.pending := by
  have hr := congrArg (Multiset.filterMap Sum.getLeft?) h.contents
  have hp := congrArg (Multiset.filterMap Sum.getRight?) h.contents
  have hf : plan.scans.filter (· ≠ .placeholder) = plan.scans :=
    List.filter_eq_self.mpr fun r hr => by simpa using hs r hr
  rw [Multiset.filterMap_add, Multiset.filterMap_map] at hr hp
  rw [Plan.relations_of_contents, Plan.relations_of_contents, h.present, hf] at hr
  rw [Plan.predicates_of_contents, Plan.predicates_of_contents] at hp
  have hn : d.pending.filterMap (fun _ => (none : Option NamedRelation)) = 0 :=
    Multiset.eq_zero_of_forall_notMem (by simp)
  constructor
  · simpa [Function.comp_def, hn] using hr
  · simpa [Function.comp_def] using hp.symm

-- The optimiser neither invents nor duplicates relations and predicates. It loses none of them if
-- no relation is empty and nothing is projected away. What is dropped then is a predicate on one
-- name that pairs no two relations.
theorem optimise_conserves (options : Options) (plan : Plan ν) :
    (∀ o, optimise options plan = .ok o →
      (o.value.scans.filter (· ≠ .placeholder)).Subperm plan.scans ∧
        o.value.predicates.Subperm plan.predicates) ∧
    (options.pushProjections = false → plan.withoutProjection.ProjectionFree →
      (∀ r ∈ plan.scans, r.statistics.Populated ∧ r.isPlaceholder = false) →
      ∃ o, optimise options plan = .ok o ∧
        (o.value = .nothing ∧ o.demand.unmatched ≠ [] ∧ .unmatched o.demand.unmatched ∈ o.events ∨
          o.value.scans.Perm plan.scans ∧
            ∃ missing : List JoinPredicate, (∀ p ∈ missing, p.isSameName) ∧
              plan.predicates.Perm (o.value.predicates ++ missing.map .join))) := by
  refine ⟨fun o ho => subperm_of_contents_le (contents_le_of_optimise ho), fun ho hf hs => ?_⟩
  have hs' : ∀ r ∈ plan.scans, (Plan.scanning r).Populated := fun r hr =>
    .scanning (hs r hr).left (hs r hr).right
  have ⟨r, hr, hc⟩ := (reshape_conserves ho hf hs').returns
  by_cases hu : r.demand.unmatched = []
  case neg =>
    exact ⟨_, optimise_eq_ok_iff.mpr ⟨r, hr, .inr ⟨hu, rfl⟩⟩, .inl ⟨rfl, hu, by simp⟩⟩
  case pos =>
    have ⟨hq, hp⟩ := hc.perm fun s hm he => absurd (hs s hm).right (by rw [he]; decide)
    have ⟨hd, hj⟩ := pending_of_unmatched hu
    refine ⟨_, optimise_eq_ok_iff.mpr ⟨r, hr, .inl ⟨hu, rfl⟩⟩, .inr ⟨hq, r.demand.joins, hj, ?_⟩⟩
    rw [hd, Multiset.coe_add] at hp
    exact Multiset.coe_eq_coe.mp hp

def strayPlan : Plan Unit :=
  .select () (.join { occurrence := 0, left := "a", right := "a" }) <|
  .select () (.join { occurrence := 1, left := "a", right := "b" }) <|
  .product () (.scan () { name := "r", statistics := .of 2 [{ name := "a", valueCount := 2 }] })
    (.scan () { name := "s", statistics := .of 3 [{ name := "b", valueCount := 1 }] })

theorem optimise_conserves_strayPlan :
    (strayPlan.withoutProjection.ProjectionFree ∧
      ∀ r ∈ strayPlan.scans, r.statistics.Populated ∧ r.isPlaceholder = false) ∧
    ∃ o, optimise { pushProjections := false } strayPlan = .ok o ∧
      (o.value = .nothing ∧ o.demand.unmatched ≠ [] ∧ .unmatched o.demand.unmatched ∈ o.events ∨
        o.value.scans.Perm strayPlan.scans ∧
          ∃ missing : List JoinPredicate, (∀ p ∈ missing, p.isSameName) ∧
            strayPlan.predicates.Perm (o.value.predicates ++ missing.map .join)) := by
  have hf : strayPlan.withoutProjection.ProjectionFree := ⟨trivial, trivial⟩
  have hs : ∀ r ∈ strayPlan.scans, r.statistics.Populated ∧ r.isPlaceholder = false := by decide
  exact ⟨⟨hf, hs⟩, (optimise_conserves _ strayPlan).right rfl hf hs⟩

end QueryPlanner
