import QueryPlanner.Proofs.Pushdown
import QueryPlanner.Proofs.Repetition.Leaves
import QueryPlanner.Proofs.Repetition.Placing

namespace QueryPlanner

open Run (Meets)
open Reshaping (ofPlan)
open Unlimited

variable {ν : Type} {tree : Plan ν} {ps : List (ν × Predicate)} {options : Options}
variable {kept : Multiset String} {d d' : Demand} {q : Plan Relation} {qs : List (Plan Relation)}

def Plan.Unambiguous (tree : Plan ν) : Prop :=
  tree.scans.Pairwise fun r s => ∀ n, r.has n → s.has n = false

-- The leaves that a tree of products gives rise to.
structure Gathered (tree : Plan ν) (d : Demand) (qs : List (Plan Relation)) (d' : Demand) : Prop where
  steady    : ∀ q ∈ qs, Steady q
  names     : ∀ q ∈ qs, ∀ n, q.output.has n → ∃ r ∈ tree.scans, r.has n
  apart     : qs.Pairwise Plan.Apart
  undecided : ∀ p ∈ d'.joins, p ∈ d.joins ∧ Undecided qs p

namespace Gathered

variable {a : ν} {l r : Plan ν} {scan : NamedRelation} {d₁ : Demand} {rs : List (Plan Relation)}

theorem nil (hd : ∀ p ∈ d'.joins, p ∈ d.joins) : Gathered tree d [] d' where
  steady         := nofun
  names          := nofun
  apart          := .nil
  undecided p hp := ⟨hd p hp, .inr nofun⟩

theorem leaf (hq : Steady q) (hn : q.output.names = scan.statistics.names)
    (hd : ∀ p ∈ d'.joins, p ∈ d.joins ∧ scan.decides p = false) :
    Gathered (.scan a scan) d [q] d' where
  steady := List.forall_mem_singleton.mpr hq
  names  := List.forall_mem_singleton.mpr fun n hq =>
    ⟨scan, List.mem_singleton_self scan, (Relation.has_eq_of_names hn n).symm.trans hq⟩
  apart  := List.pairwise_singleton ..
  undecided p hp := by
    have ⟨hp, hs⟩ := hd p hp
    simp only [NamedRelation.decides, Bool.and_eq_false_iff, Bool.not_eq_false'] at hs
    refine ⟨hp, or_iff_not_imp_left.mpr fun hne => List.forall_mem_singleton.mpr fun ⟨hl, hr⟩ => ?_⟩
    rw [Relation.has_eq_of_names hn] at hl hr
    obtain (hs | hs) | hs := hs
    · exact hne hs
    · exact Bool.noConfusion (hl.symm.trans hs)
    · exact Bool.noConfusion (hr.symm.trans hs)

theorem append (gl : Gathered l d qs d₁) (gr : Gathered r d₁ rs d')
    (ha : (Plan.product a l r).Unambiguous) : Gathered (.product a l r) d (qs ++ rs) d' where
  steady := List.forall_mem_append.mpr ⟨gl.steady, gr.steady⟩
  names  := by
    refine List.forall_mem_append.mpr ⟨fun q hq n hn => ?_, fun q hq n hn => ?_⟩
    · have ⟨s, hs, hn⟩ := gl.names q hq n hn
      exact ⟨s, List.mem_append_left _ hs, hn⟩
    · have ⟨s, hs, hn⟩ := gr.names q hq n hn
      exact ⟨s, List.mem_append_right _ hs, hn⟩
  apart  := by
    refine List.pairwise_append.mpr ⟨gl.apart, gr.apart, fun q hq q' hq' n hn => ?_⟩
    have ⟨s, hs, hn⟩ := gl.names q hq n hn
    rw [← Bool.not_eq_true]
    intro hn'
    have ⟨s', hs', hn'⟩ := gr.names q' hq' n hn'
    have hlr := (List.pairwise_append.mp ha).right.right s hs s' hs' n hn
    exact Bool.noConfusion (hn'.symm.trans hlr)
  undecided p hp := by
    have ⟨hp, hr⟩ := gr.undecided p hp
    have ⟨hp, hl⟩ := gl.undecided p hp
    exact ⟨hp, or_iff_not_imp_left.mpr fun hs =>
      List.forall_mem_append.mpr ⟨hl.resolve_left hs, hr.resolve_left hs⟩⟩

end Gathered

theorem leaves_gathered (options : Options) (ht : tree.IsProducts) (ha : tree.Unambiguous)
    (hc : d.Covers kept) (hn : d.narrowing = false) :
    Meets (fun _ => True) (ofPlan options tree).leaves d fun qs d' => Gathered tree d qs d' := by
  induction tree generalizing d
  case select  => exact ht.elim
  case project => exact ht.elim
  case join    => exact ht.elim
  case scan _ r =>
    refine (placeScan_steady r hn).bind fun q d' ⟨hq, hnames, hd⟩ => ?_
    unfold Reshaping.keepLeaf
    split
    case isTrue  => exact Run.meets_report_bind (Run.meets_pure (.nil fun p hp => (hd p hp).left))
    case isFalse => exact Run.meets_pure (.leaf hq hnames hd)
  case product _ l r hl hr =>
    have ⟨hal, har, _⟩ := List.pairwise_append.mp ha
    refine ((hl ht.left hal hc hn).and (Reshaping.ofPlan_takes .free l (fun _ _ => trivial) nofun
      nofun hc hn).leaves).bind fun qs d₁ ⟨gl, y, _⟩ => ?_
    exact (hr ht.right har y.covers y.narrows).bind fun rs d₂ gr => Run.meets_pure (gl.append gr ha)

theorem products_composed (ho : options.reorderJoins) (ht : tree.IsProducts)
    (ha : tree.Unambiguous) (hc : d.Covers kept) (hn : d.narrowing = false) :
    Meets (fun _ => True) (ofPlan options tree).plan d fun q _ => q.Composed := by
  cases tree
  case select  => exact ht.elim
  case project => exact ht.elim
  case join    => exact ht.elim
  case scan _ r =>
    exact (placeScan_steady r hn).mono fun q _ ⟨hq, _⟩ => hq.composed
  case product n l r =>
    refine ((leaves_gathered options ht ha hc hn).and (Reshaping.ofPlan_takes .free (.product n l r)
      (fun _ _ => trivial) nofun nofun hc hn).leaves).bind fun qs d' ⟨g, y, _⟩ => ?_
    exact joinOrder_composed ho y (fun q hq => (g.steady q hq).composed) g.apart
      fun p hp => (g.undecided p hp).right

theorem optimise_composed {o : Outcome (Plan Relation)} (ho : options.reorderJoins)
    (ht : tree.IsProducts) (ha : tree.Unambiguous) (h : optimise options (tree.selects ps) = .ok o) :
    o.value.Composed := by
  obtain ⟨r, hr, ⟨_, rfl⟩ | ⟨_, rfl⟩⟩ := optimise_eq_ok_iff.mp h
  case inr => exact composed_nothing
  case inl =>
    rw [reshape, Reshaping.plan_selects] at hr
    have hm := products_composed ho ht ha (Demand.covers_empty.deferAll (ps.map (·.2)))
      (Demand.narrowing_deferAll ..)
    exact (hm.elim hr :)

end QueryPlanner
