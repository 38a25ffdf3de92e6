import QueryPlanner.Proofs.Invariant

namespace QueryPlanner

open Run (Meets)
open Unlimited

variable {exact : Prop} {G : Plan Relation → Prop} {F : Failure → Prop} {mode : Bool}
variable {kept : Multiset String} {budget : Multiset Part} {qs : List (Plan Relation)}
variable {plan q : Plan Relation} {d d' : Demand} {p : Predicate}

-- What a step of the optimiser hands on: plans that are made of the budget, apart from what is
-- still pending.
structure Yields (exact : Prop) (G : Plan Relation → Prop) (mode : Bool) (kept : Multiset String)
    (budget : Multiset Part) (qs : List (Plan Relation)) (d : Demand) : Prop where
  good     : ∀ q ∈ qs, G q
  covers   : d.Covers kept
  retained : Retains exact budget ((qs.map Plan.contents).sum + d.pending.map .inr)
  narrows  : d.narrowing = mode

structure Applied (G : Plan Relation → Prop) (kept : Multiset String) (p : Predicate)
    (plan : Plan Relation) (d : Demand) (q : Plan Relation) (d' : Demand) : Prop where
  good     : G q
  names    : q.output.names = plan.output.names
  contents : q.contents = .inr p ::ₘ plan.contents
  pending  : d.pending = p ::ₘ d'.pending
  covers   : d'.Covers kept
  narrows  : d'.narrowing = d.narrowing

theorem Applied.yields (h : Applied G kept p plan d q d')
    (y : Yields exact G mode kept budget [plan] d) : Yields exact G mode kept budget [q] d' where
  good     := by simpa using h.good
  covers   := h.covers
  retained := by
    have : q.contents + d'.pending.map .inr = plan.contents + d.pending.map .inr := by
      rw [h.contents, h.pending, Multiset.map_cons, Multiset.cons_add, Multiset.add_cons]
    simpa [this] using y.retained
  narrows  := h.narrows.trans y.narrows

theorem selectJoin_meets {p : JoinPredicate} (I : PlanInvariant exact G F) (hg : G plan)
    (hn : ∀ n ∈ p.attributes, plan.output.has n) (hc : d.Covers kept) (hp : p ∈ d.joins) :
    Meets F (selectJoin p plan) d fun q d' => Applied G kept (.join p) plan d q d' := by
  refine (I.selecting_meets (p := .join p) hg hn).bind fun q e ⟨he, hg, hq, hn⟩ => ?_
  subst he
  refine Run.meets_place_bind (Demand.placeJoin_of_mem hp) (Run.meets_pure ?_)
  have hd := Demand.pending_erase_join hp
  refine ⟨hg, hn, hq, ?_, (hc.take (p := .join p) hd rfl).releaseAll _, ?_⟩
  · rw [Demand.pending_releaseAll, hd]
  · rw [Demand.narrowing_releaseAll]

theorem selectValue_meets {p : ValuePredicate} (I : PlanInvariant exact G F) (hg : G plan)
    (hn : plan.output.has p.name) (hc : d.Covers kept) (hp : p ∈ d.selects) :
    Meets F (selectValue p plan) d fun q d' => Applied G kept (.value p) plan d q d' := by
  refine (I.selecting_meets (p := .value p) hg (by simpa [Predicate.attributes] using hn)).bind
    fun q e ⟨he, hg, hq, hn⟩ => ?_
  subst he
  refine Run.meets_place_bind (Demand.placeSelect_of_mem hp) (Run.meets_pure ?_)
  have hd := Demand.pending_erase_select hp
  refine ⟨hg, hn, hq, ?_, (hc.take (p := .value p) hd rfl).releaseAll _, ?_⟩
  · rw [Demand.pending_releaseAll, hd]
  · rw [Demand.narrowing_releaseAll]

theorem narrow_yields (I : PlanInvariant exact G F) (hm : exact → mode = false)
    (y : Yields exact G mode kept budget [plan] d) :
    Meets F (narrow plan) d fun q d' => Yields exact G mode kept budget [q] d' := by
  refine (narrow_meets plan d).mono fun q e ⟨he, hq⟩ => ?_
  subst he
  have hn : exact → e.narrowing = false := fun hx => y.narrows.trans (hm hx)
  exact {
    good     := by simpa using I.narrowed (by simpa using y.good) hn hq
    covers   := y.covers
    retained := y.retained.trans (.add_right (by simpa using hq.retains hn) _)
    narrows  := y.narrows
  }

end QueryPlanner
