import Mathlib
import QueryPlanner.Proofs.CanonicalQuery
import QueryPlanner.Proofs.JoinOrder.Listed
import QueryPlanner.Proofs.Safety

namespace QueryPlanner

open Run (Logs)
open Unlimited

variable {q : Plan Relation} {d : Demand} {options : Options}

theorem placeScan_logs (r : NamedRelation) (d : Demand) :
    Logs (placeScan r) d fun q d' js => js = [] ∧ q.joined = [] ∧ d'.joins.Sublist d.joins := by
  refine Run.logs_demand_bind <| (Run.logs_foldlM
    (I := fun (q : Plan Relation) d' => q.joined = [] ∧ d'.joins.Sublist d.joins)
    (fun q p _ ⟨hq, hs⟩ => ?_) _ (Plan.scanning r) d ⟨rfl, .refl _⟩).bind_nil fun q d' h => ?_
  · exact (selectValue_logs p q _).mono fun _ _ _ ⟨hj, hr, he⟩ => ⟨hj, hr.trans hq, he ▸ hs⟩
  refine Run.logs_demand_bind <| (Run.logs_foldlM
    (I := fun (q : Plan Relation) d' => q.joined = [] ∧ d'.joins.Sublist d.joins)
    (fun q p _ ⟨hq, hs⟩ => ?_) _ q d' h).bind_nil fun q d' h => ?_
  · exact (selectJoin_logs p q _).mono fun _ _ _ ⟨hj, hr, hs'⟩ => ⟨hj, hr.trans hq, hs'.trans hs⟩
  have hq : q.joined ⊆ [] := h.left ▸ List.Subset.refl _
  refine (narrow_logs hq).mono fun r _ _ ⟨hj, hd, hr⟩ => ?_
  exact ⟨hj, List.subset_nil.mp hr, hd ▸ h.right⟩

namespace Reshaping

variable {ν : Type} {tree : Plan ν}

theorem keepLeaf_logs (h : q.joined = []) (d : Demand) :
    Logs (keepLeaf q) d fun qs d' js => js = [] ∧ d' = d ∧ ∀ r ∈ qs, r.joined = [] := by
  unfold keepLeaf
  split
  case isTrue  => exact Run.logs_report_bind <| Run.logs_pure ⟨rfl, rfl, nofun⟩
  case isFalse => exact Run.logs_pure ⟨rfl, rfl, List.forall_mem_singleton.mpr h⟩

theorem products_leaves_logs (ht : tree.IsProducts) (d : Demand) :
    Logs (ofPlan options tree).leaves d fun qs d' js => js = [] ∧ (∀ q ∈ qs, q.joined = []) ∧
      d'.joins.Sublist d.joins := by
  induction tree generalizing d
  case scan r =>
    refine (placeScan_logs r d).bind_nil fun q d' ⟨hq, hs⟩ => ?_
    exact (keepLeaf_logs hq d').mono fun _ _ _ ⟨hj, hd, hq⟩ => ⟨hj, hq, hd ▸ hs⟩
  case product hl hr =>
    refine (hl ht.left d).bind_nil fun qs d' ⟨hq, hs⟩ => ?_
    refine (hr ht.right d').bind_nil fun rs d'' ⟨hr, hs'⟩ => Run.logs_pure ⟨rfl, ?_, hs'.trans hs⟩
    exact fun q hm => (List.mem_append.mp hm).elim (hq q) (hr q)
  all_goals exact ht.elim

theorem products_logs (ho : options.reorderJoins = false) (ht : tree.IsProducts) (d : Demand) :
    Logs (ofPlan options tree).plan d fun q _ js =>
      js.Sublist (d.joins.map JoinPredicate.occurrence) ∧ q.joined ⊆ js := by
  cases tree
  case scan r =>
    exact (placeScan_logs r d).mono fun q _ js ⟨hj, hq, _⟩ => by
      rw [hj, hq]
      exact ⟨List.nil_sublist _, List.Subset.refl _⟩
  case product =>
    refine (products_leaves_logs ht d).bind_nil fun qs d' ⟨hq, hs⟩ => ?_
    exact (joinOrder_logs ho .product hq d').mono fun _ _ _ ⟨hj, hq⟩ => ⟨hj.trans (hs.map _), hq⟩
  all_goals exact ht.elim

theorem selects_logs (ho : options.reorderJoins = false) (ht : tree.IsProducts)
    (ps : List (ν × Predicate)) (hd : d.joins = []) :
    Logs (ofPlan options (tree.selects ps)).plan d fun q _ js =>
      js.Sublist (tree.selects ps).joinNumbers ∧ q.joined ⊆ js := by
  intro o h
  have := products_logs ho ht _ o (plan_selects ps tree d ▸ h)
  rwa [Demand.joins_deferAll, hd, List.nil_append, ← ht.predicates_selects] at this

theorem joined_ensureProjection (names : List String) (q : Plan Relation) :
    (ensureProjection names q).joined = q.joined := by
  unfold ensureProjection
  split
  case h_1 => split <;> rfl
  case h_2 => rfl

theorem underProjection_logs {names : List String} {input : Run (Plan Relation)}
    {P : List Nat → Prop}
    (h : Logs input { d.requireAll names with narrowing := options.pushProjections } fun q _ js =>
      P js ∧ q.joined ⊆ js) :
    Logs (underProjection options names input) d fun q _ js => P js ∧ q.joined ⊆ js := by
  refine Run.logs_demand_bind <| Run.logs_modify_bind <| h.bind fun q d' js ⟨hp, hq⟩ => ?_
  refine (narrow_logs hq).bind_nil fun r d'' ⟨_, hr⟩ => Run.logs_modify_bind <| Run.logs_pure ?_
  rw [List.append_nil, joined_ensureProjection]
  exact ⟨hp, hr⟩

end Reshaping

theorem conclude_logs (q : Plan Relation) (d : Demand) :
    Logs (conclude q) d fun r _ js => js = [] ∧ r.joined ⊆ q.joined := by
  refine Run.logs_demand_bind ?_
  split
  case h_1 => exact Run.logs_report_bind <| Run.logs_pure ⟨rfl, List.Subset.refl _⟩
  case h_2 => exact Run.logs_report_bind <| Run.logs_pure ⟨rfl, nofun⟩

theorem optimise_in_order {ν : Type} {plan : Plan ν} {o : Outcome (Plan Relation)}
    (ho : options.reorderJoins = false) (hc : plan.Canonical) (h : optimise options plan = .ok o) :
    o.joined.Sublist plan.joinNumbers ∧ o.value.joined ⊆ o.joined := by
  have hr : Logs (reshape options plan) {} fun q _ js =>
      js.Sublist plan.joinNumbers ∧ q.joined ⊆ js := by
    cases hc
    case plain ps _ ht           => exact Reshaping.selects_logs ho ht ps rfl
    case projected names ps _ ht =>
      refine Reshaping.underProjection_logs (Reshaping.selects_logs ho ht ps ?_)
      rw [Demand.requireAll_eq]
  have hl : Logs (reshape options plan >>= conclude) {} fun q _ js =>
      js.Sublist plan.joinNumbers ∧ q.joined ⊆ js := by
    refine hr.bind fun q d js ⟨hj, hq⟩ => (conclude_logs q d).mono fun r _ ks ⟨hk, hr⟩ => ?_
    subst hk
    rw [List.append_nil]
    exact ⟨hj, List.Subset.trans hr hq⟩
  exact hl o h

-- Without reordering the joins of a query are materialised from the last one written to the first,
-- whatever reads it.
theorem optimise_in_reverse {read : String → Option Query.Statement} {c : Catalogue} {text : String}
    {plan : Plan Unit} (ho : options.reorderJoins = false) (hq : Query.planBy read c text = .ok plan)
    (hs : ∀ r ∈ plan.scans, r.statistics.Counts 0) :
    ∃ o, optimise options plan = .ok o ∧ o.joined.Pairwise (· > ·) ∧ o.value.joined ⊆ o.joined := by
  obtain ⟨o, h, _⟩ := (optimise_bounded options plan).right hs
  obtain ⟨hc, hn⟩ := Query.canonical_of_planBy hq
  obtain ⟨hj, hv⟩ := optimise_in_order ho hc h
  exact ⟨o, h, hn.sublist hj, hv⟩

def chainCatalogue : Except CatalogueError Catalogue :=
  Catalogue.ofText "A:100:a,10\nB:100:b,10:b2,50\nC:20:c,20"

def chainText : String :=
  "SELECT *\nFROM A,B,C\nWHERE b2=c,a=b"

-- The plan of `chainText`. Its predicate `b2=c` is number 0 and `a=b` is number 1.
def chainPlan : Plan Unit :=
  let scan (name : String) (count : Nat) (as : List Attribute) : Plan Unit :=
    .scan () { name := name, statistics := .of count as }
  Query.selections
    (.product () (.product () (scan "A" 100 [⟨"a", 10⟩]) (scan "B" 100 [⟨"b", 10⟩, ⟨"b2", 50⟩]))
      (scan "C" 20 [⟨"c", 20⟩]))
    [.join "b2" "c", .join "a" "b"]

def unordered : Options where
  pushProjections := false
  reorderJoins    := false

theorem eq_ok_of_toOption {ε α : Type} {x : Except ε α} {a : α} (h : x.toOption = some a) :
    x = .ok a := by
  cases x
  case error => contradiction
  case ok    => exact congrArg _ (Option.some.inj h)

theorem plan_chain : ∃ c, chainCatalogue = .ok c ∧ Query.plan c chainText = .ok chainPlan := by
  have hp : (chainCatalogue.toOption.map fun c => (Query.plan c chainText).toOption) =
    some (some chainPlan) := by decide +kernel
  obtain ⟨c, hc, h⟩ := Option.map_eq_some_iff.mp hp
  exact ⟨c, eq_ok_of_toOption hc, eq_ok_of_toOption h⟩

theorem optimise_in_reverse_chain : (∀ r ∈ chainPlan.scans, r.statistics.Counts 0) ∧
    ∃ c o, chainCatalogue = .ok c ∧ Query.plan c chainText = .ok chainPlan ∧
      optimise unordered chainPlan = .ok o ∧ o.joined.Pairwise (· > ·) ∧
      o.value.joined ⊆ o.joined := by
  have hs : ∀ r ∈ chainPlan.scans, r.statistics.Counts 0 := by decide
  obtain ⟨c, hc, hq⟩ := plan_chain
  have ho : unordered.reorderJoins = false := rfl
  obtain ⟨o, h⟩ := optimise_in_reverse ho hq hs
  exact ⟨hs, c, o, hc, hq, h⟩

theorem written_order_chain : chainPlan.offers.Nodup ∧
    (∀ r ∈ chainPlan.scans, r.statistics.Populated) ∧
    ∃ c o, chainCatalogue = .ok c ∧ Query.plan c chainText = .ok chainPlan ∧
      optimise unordered chainPlan = .ok o ∧
      o.value.text = "((A) JOIN [a=b] (B)) JOIN [b2=c] (C)" ∧
      0 ∈ o.value.joined ∧ 1 ∈ o.value.joined ∧ ¬[0, 1].Sublist o.joined := by
  obtain ⟨c, hc, hq⟩ := plan_chain
  have hm : (optimise unordered chainPlan).toOption.map (fun o => (o.value.text, o.value.joined, o.joined)) =
    some ("((A) JOIN [a=b] (B)) JOIN [b2=c] (C)", [0, 1], [1, 0]) := by cbv
  obtain ⟨o, ho, h⟩ := Option.map_eq_some_iff.mp hm
  obtain ⟨ht, hv, hj⟩ : o.value.text = _ ∧ o.value.joined = [0, 1] ∧ o.joined = [1, 0] := by simpa using h
  refine ⟨by decide, by decide, c, o, hc, hq, eq_ok_of_toOption ho, ht, ?_, ?_, ?_⟩
  · simp [hv]
  · simp [hv]
  · rw [hj]
    decide

end QueryPlanner
