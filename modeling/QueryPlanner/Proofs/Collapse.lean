import QueryPlanner.Proofs.Conservation
import QueryPlanner.Proofs.Sifting

namespace QueryPlanner

open Run (Meets)
open Reshaping (ofPlan)
open Unlimited

variable {ν : Type} {options : Options} {kept : Multiset String} {d : Demand} {tree plan : Plan ν}
variable {q : Plan Relation} {ps : List (ν × Predicate)} {names : List String}

namespace Plan

inductive Canonical : Plan ν → Prop
  | plain (ps : List (ν × Predicate)) {tree : Plan ν} :
    tree.IsProducts → Canonical (tree.selects ps)
  | projected (n : ν) (names : List String) (ps : List (ν × Predicate)) {tree : Plan ν} :
    tree.IsProducts → Canonical (.project n names (tree.selects ps))

namespace IsProducts

theorem predicates_eq_nil (h : tree.IsProducts) : tree.predicates = [] := by
  induction tree
  case scan          => rfl
  case product hl hr => rw [predicates, hl h.left, hr h.right, List.append_nil]
  all_goals exact h.elim

theorem predicates_selects (h : tree.IsProducts) (ps : List (ν × Predicate)) :
    (tree.selects ps).predicates = ps.map (·.2) := by
  rw [Plan.predicates_selects, h.predicates_eq_nil, List.append_nil]

theorem projectionFree (h : tree.IsProducts) : tree.ProjectionFree := by
  induction tree
  case scan          => trivial
  case product hl hr => exact ⟨hl h.left, hr h.right⟩
  all_goals exact h.elim

theorem projectionFree_selects (h : tree.IsProducts) (ps : List (ν × Predicate)) :
    (tree.selects ps).ProjectionFree := by
  induction ps
  case nil         => exact h.projectionFree
  case cons _ _ hi => exact hi

end IsProducts

theorem Populated.ne_nothing (h : q.Populated) : q ≠ .nothing := by
  rintro rfl
  exact absurd (h.scans .placeholder (List.mem_singleton_self _)) (by decide)

end Plan

theorem ensureProjection_ne_nothing (names : List String) (plan : Plan Relation) :
    ensureProjection names plan ≠ .nothing := by
  unfold ensureProjection
  split
  case h_1 => split <;> exact nofun
  case h_2 => exact nofun

theorem underProjection_unmatched {input : Run (Plan Relation)} {P : List Predicate → Prop}
    (h : Meets (fun _ => True) input
      { d.requireAll names with narrowing := options.pushProjections } fun _ d' => P d'.unmatched) :
    Meets (fun _ => True) (underProjection options names input) d fun q d' =>
      q ≠ .nothing ∧ P d'.unmatched := by
  refine Run.meets_demand_bind <| Run.meets_modify_bind <| h.bind fun q d₁ hp => ?_
  refine (narrow_meets q d₁).bind fun q' d₂ ⟨hd, _⟩ => ?_
  subst hd
  refine Run.meets_modify_bind <| Run.meets_pure ⟨ensureProjection_ne_nothing names q', ?_⟩
  rw [Demand.unmatched_releaseAll]
  exact hp

theorem selects_unmatched (ht : tree.IsProducts) (hs : ∀ r ∈ tree.scans, r.statistics.Populated)
    (hc : d.Covers kept) (hd : d.pending = 0) :
    Meets (fun _ => True) (ofPlan options (tree.selects ps)).plan d fun _ d' => ∀ p,
      p ∈ d'.unmatched ↔ p ∈ ps.map (·.2) ∧ p.Unresolved tree.scans := by
  have h : Meets (fun _ => True) (ofPlan options tree).plan (d.deferAll (ps.map (·.2))) _ :=
    products_unmatched ht hs (hc.deferAll _)
  rw [Demand.pending_deferAll, hd, add_zero] at h
  unfold Meets
  rw [Reshaping.plan_selects]
  exact h

theorem Plan.Canonical.reshape_unmatched (h : plan.Canonical)
    (hs : ∀ r ∈ plan.scans, r.statistics.Populated ∧ r.isPlaceholder = false) :
    Meets (fun _ => True) (reshape options plan) {} fun q d => q ≠ .nothing ∧
      ∀ p, p ∈ d.unmatched ↔ p ∈ plan.predicates ∧ p.Unresolved plan.scans := by
  cases h
  case plain ps tree ht =>
    have hy : Meets (fun _ => False) (reshape options (tree.selects ps)) {} _ :=
      ofPlan_conserves (fun r hr => .scanning (hs r hr).left (hs r hr).right)
        (ht.projectionFree_selects ps) rfl Demand.covers_empty rfl
    have ⟨o, ho, y⟩ := hy.returns
    have ne : o.value ≠ .nothing := (y.good _ (List.mem_singleton_self _)).ne_nothing
    rw [Plan.scans_selects] at hs ⊢
    rw [ht.predicates_selects]
    have h : Meets (fun _ => True) (reshape options (tree.selects ps)) {} _ :=
      selects_unmatched ht (fun r hr => (hs r hr).left) Demand.covers_empty rfl
    unfold Meets at h ⊢
    rw [ho] at h ⊢
    exact ⟨ne, h⟩
  case projected n names ps tree ht =>
    have hc : Demand.Covers { Demand.requireAll {} names with narrowing := options.pushProjections }
      (names + 0) := Demand.covers_empty.requireAll names
    rw [Plan.scans, Plan.scans_selects] at hs ⊢
    rw [Plan.predicates, ht.predicates_selects]
    exact underProjection_unmatched (P := fun us => ∀ p, p ∈ us ↔ p ∈ ps.map (·.2) ∧ p.Unresolved tree.scans)
      (selects_unmatched ht (fun r hr => (hs r hr).left) hc (Demand.pending_requireAll {} names))

-- A plan collapses to nothing, with a warning, just in case that one of its predicates asks for an
-- attribute that no relation has.
theorem optimise_collapses_iff (options : Options) (h : plan.Canonical)
    (hs : ∀ r ∈ plan.scans, r.statistics.Populated ∧ r.isPlaceholder = false) :
    ∃ o, optimise options plan = .ok o ∧
      (o.value = .nothing ↔ ∃ p ∈ plan.predicates, p.Unresolved plan.scans) ∧
      ((∃ ps, .unmatched ps ∈ o.events) ↔ ∃ p ∈ plan.predicates, p.Unresolved plan.scans) := by
  have ⟨r, hr⟩ : ∃ r, reshape options plan {} = .ok r :=
    reshape_returns fun r hr a ha => zero_le_one.trans ((hs r hr).left.values a ha)
  have ⟨ne, hu⟩ := (h.reshape_unmatched hs).elim hr
  have quiet (ps : List Predicate) : .unmatched ps ∉ r.events := fun hm =>
    nomatch (reshape_quiet options plan {} r hr).right _ hm
  have hu : (∃ p ∈ plan.predicates, p.Unresolved plan.scans) ↔ r.demand.unmatched ≠ [] := by
    rw [← not_iff_not, not_not, List.eq_nil_iff_forall_not_mem, not_exists]
    exact forall_congr' fun p => not_congr (hu p).symm
  simp only [hu]
  by_cases hn : r.demand.unmatched = []
  case pos => exact ⟨_, optimise_eq_ok_iff.mpr ⟨r, hr, .inl ⟨hn, rfl⟩⟩, by simp [ne, hn], by simp [quiet, hn]⟩
  case neg => exact ⟨_, optimise_eq_ok_iff.mpr ⟨r, hr, .inr ⟨hn, rfl⟩⟩, by simp [hn], by simp [hn]⟩

-- Of the attributes in the conditions `e` and `z` are unknown. It is only `e` that matters.
def misspelt : Plan Unit :=
  .project () ["a"] <|
  .select () (.join { occurrence := 0, left := "z", right := "z" }) <|
  .select () (.join { occurrence := 1, left := "b", right := "e" }) <|
  .select () (.value { occurrence := 2, name := "c", value := "x" }) <|
  .product () (.scan () { name := "r", statistics := .of 4 [⟨"a", 2⟩, ⟨"b", 3⟩] })
    (.scan () { name := "s", statistics := .of 3 [⟨"c", 3⟩] })

theorem optimise_collapses_iff_misspelt :
    (misspelt.Canonical ∧
      ∀ r ∈ misspelt.scans, r.statistics.Populated ∧ r.isPlaceholder = false) ∧
    (∃ p ∈ misspelt.predicates, p.Unresolved misspelt.scans) ∧
    ∃ o, optimise {} misspelt = .ok o ∧
      (o.value = .nothing ↔ ∃ p ∈ misspelt.predicates, p.Unresolved misspelt.scans) ∧
      ((∃ ps, .unmatched ps ∈ o.events) ↔
        ∃ p ∈ misspelt.predicates, p.Unresolved misspelt.scans) := by
  have hc : misspelt.Canonical := .projected () ["a"]
    [((), .join ⟨0, "z", "z"⟩), ((), .join ⟨1, "b", "e"⟩), ((), .value ⟨2, "c", "x"⟩)]
    ⟨trivial, trivial⟩
  have hs : ∀ r ∈ misspelt.scans, r.statistics.Populated ∧ r.isPlaceholder = false := by decide
  exact ⟨⟨hc, hs⟩, by decide, optimise_collapses_iff {} hc hs⟩

example : (optimise {} misspelt).toOption.map (fun o => (o.value.text, o.events.getLast?)) =
    some ("<Empty>", some (.unmatched [.join { occurrence := 1, left := "b", right := "e" }])) := by
  cbv

end QueryPlanner
