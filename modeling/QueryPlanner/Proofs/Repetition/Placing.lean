import QueryPlanner.Proofs.Repetition.Steady
import QueryPlanner.Proofs.Reshape

namespace QueryPlanner

open Run (Meets)
open Unlimited

variable {d : Demand} {plan q : Plan Relation} {r : NamedRelation}

-- What exactly the placing of predicates on a scan does.

theorem selectValue_result (p : ValuePredicate) (plan : Plan Relation) (d : Demand) :
    Meets (fun _ => True) (selectValue p plan) d fun q d' =>
      Plan.selecting (.value p) plan = .ok q ∧
        d' = Demand.releaseAll { d with selects := d.selects.erase p } [p.name] := by
  refine (Run.meets_ofEstimate
    (Q := fun q d' => d' = d ∧ Plan.selecting (.value p) plan = .ok q)
    (fun q hq => ⟨rfl, hq⟩) fun _ _ => trivial).bind fun q d' ⟨hd, hq⟩ => ?_
  subst hd
  refine (Run.meets_place (fun e he => ?_) fun _ _ => trivial).bind fun _ e he =>
    Run.meets_pure ⟨hq, he⟩
  exact (Except.ok.inj ((Demand.placeSelect_of_mem (Demand.mem_of_placeSelect he)).symm.trans he)).symm

theorem selectJoin_result (p : JoinPredicate) (plan : Plan Relation) (d : Demand) :
    Meets (fun _ => True) (selectJoin p plan) d fun q d' =>
      Plan.selecting (.join p) plan = .ok q ∧
        d' = Demand.releaseAll { d with joins := d.joins.erase p } p.attributes := by
  refine (Run.meets_ofEstimate
    (Q := fun q d' => d' = d ∧ Plan.selecting (.join p) plan = .ok q)
    (fun q hq => ⟨rfl, hq⟩) fun _ _ => trivial).bind fun q d' ⟨hd, hq⟩ => ?_
  subst hd
  refine (Run.meets_place (fun e he => ?_) fun _ _ => trivial).bind fun _ e he =>
    Run.meets_pure ⟨hq, he⟩
  exact (Except.ok.inj ((Demand.placeJoin_of_mem (Demand.mem_of_placeJoin he)).symm.trans he)).symm

theorem selectValues_result (ps : List ValuePredicate) (plan : Plan Relation) (d : Demand) :
    Meets (fun _ => True) (ps.foldlM (fun q p => selectValue p q) plan) d fun q d' =>
      Plan.stack (ps.map .value) plan = .ok q ∧
        d' = Demand.releaseAll { d with selects := d.selects.diff ps } (ps.map (·.name)) := by
  induction ps generalizing plan d
  case nil          => exact Run.meets_pure ⟨rfl, rfl⟩
  case cons p ps hi =>
    rw [List.foldlM_cons]
    refine (selectValue_result p plan d).bind fun q d' ⟨hq, hd⟩ => (hi q d').mono
      fun q' d'' ⟨hq', hd'⟩ => ⟨Plan.stack_cons.mpr ⟨q, hq, hq'⟩, ?_⟩
    subst hd
    rw [hd', List.diff_cons]
    simp only [Demand.releaseAll_eq]
    rfl

theorem selectJoins_result (ps : List JoinPredicate) (plan : Plan Relation) (d : Demand) :
    Meets (fun _ => True) (ps.foldlM (fun q p => selectJoin p q) plan) d fun q d' =>
      Plan.stack (ps.map .join) plan = .ok q ∧
        d' = Demand.releaseAll { d with joins := d.joins.diff ps } (ps.flatMap (·.attributes)) := by
  induction ps generalizing plan d
  case nil          => exact Run.meets_pure ⟨rfl, rfl⟩
  case cons p ps hi =>
    rw [List.foldlM_cons]
    refine (selectJoin_result p plan d).bind fun q d' ⟨hq, hd⟩ => (hi q d').mono
      fun q' d'' ⟨hq', hd'⟩ => ⟨Plan.stack_cons.mpr ⟨q, hq, hq'⟩, ?_⟩
    subst hd
    rw [hd', List.diff_cons, List.flatMap_cons, Demand.releaseAll_append]
    simp only [Demand.releaseAll_eq]

theorem append_diff_self {α : Type} [DecidableEq α] (xs ys : List α) : (xs ++ ys).diff xs = ys := by
  induction xs
  case nil          => rfl
  case cons x xs hi => rw [List.cons_append, List.diff_cons, List.erase_cons_head, hi]

namespace NamedRelation

def values (r : NamedRelation) (d : Demand) : List ValuePredicate :=
  (sortByText ValuePredicate.text d.selects).filter (r.has ·.name)

def equations (r : NamedRelation) (d : Demand) : List JoinPredicate :=
  (sortByText JoinPredicate.text d.joins).filter r.decides

end NamedRelation

theorem placeScan_result (r : NamedRelation) (d : Demand) :
    Meets (fun _ => True) (placeScan r) d fun q d' =>
      (∃ top, Plan.stack ((r.values d).map .value ++ (r.equations d).map .join) (.scanning r) = .ok top ∧
        q = d'.narrowed top) ∧
      d' = Demand.releaseAll
        { d with selects := d.selects.diff (r.values d), joins := d.joins.diff (r.equations d) }
        ((r.values d).map (·.name) ++ (r.equations d).flatMap (·.attributes)) := by
  refine Run.meets_demand_bind ?_
  refine (selectValues_result _ _ d).bind fun q d₁ ⟨hq, hd₁⟩ => Run.meets_demand_bind ?_
  have hj : d₁.joins = d.joins := by rw [hd₁, Demand.releaseAll_eq]
  refine (selectJoins_result _ q d₁).bind fun q' d₂ ⟨hq', hd₂⟩ => ?_
  refine (narrow_result q' d₂).mono fun q'' d₃ ⟨hd₃, hq''⟩ => ?_
  subst hd₃
  refine ⟨⟨q', Plan.stack_append.mpr ⟨q, hq, ?_⟩, hq''⟩, ?_⟩
  · rwa [hj] at hq'
  · rw [hd₂, hj, hd₁, Demand.releaseAll_append]
    simp only [Demand.releaseAll_eq]
    rfl

theorem mem_diff_sorted {α : Type} [DecidableEq α] {text : α → String} {P : α → Bool} {xs : List α}
    {a : α} : a ∈ xs.diff ((sortByText text xs).filter P) ↔ a ∈ xs ∧ P a = false := by
  have hs : (sortByText text xs).count a = xs.count a := (sortByText_perm ..).count_eq a
  rw [← List.count_pos_iff, List.count_diff, ← List.count_pos_iff]
  cases hp : P a
  case true  => rw [List.count_filter hp, hs]; simp
  case false =>
    have : a ∉ (sortByText text xs).filter P := fun hm => by simp [hp] at hm
    rw [List.count_eq_zero_of_not_mem this]
    simp

theorem placeScan_steady (r : NamedRelation) (hn : d.narrowing = false) :
    Meets (fun _ => True) (placeScan r) d fun q d' =>
      Steady q ∧ q.output.names = r.statistics.names ∧
        ∀ p ∈ d'.joins, p ∈ d.joins ∧ r.decides p = false := by
  refine (placeScan_result r d).mono fun q d' ⟨⟨top, htop, hq⟩, hd⟩ => ?_
  have hn' : d'.narrowing = false := by rw [hd, Demand.narrowing_releaseAll]; exact hn
  obtain rfl : q = top := hq.trans (if_pos hn')
  refine ⟨?_, Plan.names_of_stack htop, fun p hp => ?_⟩
  · exact .scan (fun p hp => (List.mem_filter.mp hp).right) (fun p hp => (List.mem_filter.mp hp).right)
      ((inTextOrder_sortByText ..).sublist List.filter_sublist)
      ((inTextOrder_sortByText ..).sublist List.filter_sublist) htop
  · have hj : d'.joins = d.joins.diff (r.equations d) := by rw [hd, Demand.releaseAll_eq]
    exact mem_diff_sorted.mp (hj ▸ hp)

end QueryPlanner
