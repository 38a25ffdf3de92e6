import QueryPlanner.Proofs.Demand
import QueryPlanner.Proofs.Narrow

namespace QueryPlanner

-- Of what was there before nothing is duplicated, and in the exact case nothing is lost.
def Retains {α : Type} (exact : Prop) (before after : Multiset α) : Prop :=
  after ≤ before ∧ (exact → after = before)

namespace Retains

variable {α β : Type} {exact : Prop} {s t u v : Multiset α}

theorem refl (s : Multiset α) : Retains exact s s :=
  ⟨le_rfl, fun _ => rfl⟩

theorem of_eq (h : t = s) : Retains exact s t :=
  h ▸ refl t

theorem trans (h : Retains exact s t) (h' : Retains exact t u) : Retains exact s u :=
  ⟨h'.left.trans h.left, fun he => (h'.right he).trans (h.right he)⟩

theorem add (h : Retains exact s t) (h' : Retains exact u v) : Retains exact (s + u) (t + v) :=
  ⟨add_le_add h.left h'.left, fun he => by rw [h.right he, h'.right he]⟩

theorem add_right (h : Retains exact s t) (u : Multiset α) : Retains exact (s + u) (t + u) :=
  h.add (refl u)

theorem cancel (h : Retains exact (s + u) (t + u)) : Retains exact s t :=
  ⟨le_of_add_le_add_right h.left, fun he => add_right_cancel (h.right he)⟩

theorem map (h : Retains exact s t) (f : α → β) : Retains exact (s.map f) (t.map f) :=
  ⟨Multiset.map_le_map h.left, fun he => by rw [h.right he]⟩

theorem of_le (h : t ≤ s) (he : exact → t = s) : Retains exact s t :=
  ⟨h, he⟩

end Retains

-- A property `G` of estimated plans that every step of the optimiser keeps, and the failures `F`
-- that the steps may meet. In the exact case nothing is cut away: no attribute, no plan without
-- tuples, and no placeholder comes in.
structure PlanInvariant (exact : Prop) (G : Plan Relation → Prop) (F : Failure → Prop) : Prop where
  nothing        : ¬exact → G .nothing
  project        : ¬exact → ∀ {plan} names, G plan → G (.projecting names plan)
  inner          : ∀ {plan}, G plan → G plan.withoutProjection
  present        : exact → ∀ {plan}, G plan → 0 < plan.tupleCount ∧ plan.isPlaceholder = false
  product        : ∀ {l r}, G l → G r → G (.multiplying l r)
  select         : ∀ {p plan q}, G plan → (∀ n ∈ p.attributes, plan.output.has n) →
    Plan.selecting p plan = .ok q → G q
  select_failure : ∀ {p plan e}, G plan → (∀ n ∈ p.attributes, plan.output.has n) →
    Plan.selecting p plan = .error e → F (.negativeTupleCount e.count)
  join           : ∀ {p l r q}, G l → G r → l.output.has p.left → r.output.has p.right →
    Plan.joining p l r = .ok q → G q
  join_failure   : ∀ {p l r e}, G l → G r → l.output.has p.left → r.output.has p.right →
    Plan.joining p l r = .error e → F (.negativeTupleCount e.count)

namespace PlanInvariant

variable {exact : Prop} {G : Plan Relation → Prop} {F : Failure → Prop}
variable {plan q : Plan Relation} {d : Demand} {p : Predicate}

theorem narrowed (I : PlanInvariant exact G F) (hg : G plan) (he : exact → d.narrowing = false)
    (hq : Narrowed d plan q) : G q := by
  cases hq
  case kept       => exact hg
  case emptied hn _ => exact I.nothing fun h => by simp [he h] at hn
  case cut hn     => exact I.project (fun h => by simp [he h] at hn) _ (I.inner hg)

theorem selecting_meets (I : PlanInvariant exact G F) (hg : G plan)
    (hp : ∀ n ∈ p.attributes, plan.output.has n) :
    Run.Meets F (Run.ofEstimate (Plan.selecting p plan)) d fun q d' =>
      d' = d ∧ G q ∧ q.contents = .inr p ::ₘ plan.contents ∧ q.output.names = plan.output.names := by
  refine Run.meets_ofEstimate (fun q hq => ⟨rfl, I.select hg hp hq, ?_, ?_⟩) fun e he =>
    I.select_failure hg hp he
  · exact Plan.contents_of_selecting hq
  · obtain ⟨s, hs, rfl⟩ := Plan.selecting_eq_ok_iff.mp hq
    exact Relation.names_select hs

end PlanInvariant

theorem Narrowed.retains {exact : Prop} {d : Demand} {plan q : Plan Relation} (h : Narrowed d plan q)
    (he : exact → d.narrowing = false) : Retains exact plan.contents q.contents := by
  refine .of_le ?_ fun hx => by rw [h.eq_of_not_narrowing (he hx)]
  cases h.contents
  case inl hc => exact hc.le
  case inr hc => exact hc ▸ Multiset.zero_le _

namespace Plan

structure Populated (plan : Plan Relation) : Prop where
  nodes : plan.Everywhere Relation.Populated
  scans : ∀ r ∈ plan.scans, r.isPlaceholder = false

theorem Populated.scanning {r : NamedRelation} (hr : r.statistics.Populated)
    (hn : r.isPlaceholder = false) : (scanning r).Populated where
  nodes := hr
  scans := by simpa [Plan.scanning, Plan.scans] using hn

theorem Populated.filter_scans {plan : Plan Relation} (h : plan.Populated) :
    plan.scans.filter (· ≠ .placeholder) = plan.scans :=
  List.filter_eq_self.mpr fun r hr => by
    have := h.scans r hr
    simp only [decide_eq_true_eq]
    rintro rfl
    exact absurd this (by decide)

end Plan

namespace PlanInvariant

theorem any : PlanInvariant False (fun _ => True) (fun e => ∃ n, e = .negativeTupleCount n) where
  nothing _        := trivial
  project _ _ _ _  := trivial
  inner _          := trivial
  present          := False.elim
  product _ _      := trivial
  select _ _ _     := trivial
  select_failure _ _ _ := ⟨_, rfl⟩
  join _ _ _ _ _   := trivial
  join_failure _ _ _ _ _ := ⟨_, rfl⟩

theorem free : PlanInvariant False (fun _ => True) (fun _ => True) where
  nothing _        := trivial
  project _ _ _ _  := trivial
  inner _          := trivial
  present          := False.elim
  product _ _      := trivial
  select _ _ _     := trivial
  select_failure _ _ _ := trivial
  join _ _ _ _ _   := trivial
  join_failure _ _ _ _ _ := trivial

theorem populated : PlanInvariant True Plan.Populated (fun _ => False) where
  nothing h     := absurd trivial h
  project h     := absurd trivial h
  inner h       := ⟨h.nodes.withoutProjection, by simpa using h.scans⟩
  present       := fun _ {plan} h => ⟨h.nodes.note.tuples, by
    cases plan
    case scan r => exact h.scans r (List.mem_singleton_self r)
    all_goals rfl⟩
  product hl hr := {
    nodes := ⟨Relation.populated_product hl.nodes.note hr.nodes.note, hl.nodes, hr.nodes⟩
    scans := fun r hm => (List.mem_append.mp hm).elim (hl.scans r) (hr.scans r)
  }
  select hg hn hq := by
    obtain ⟨s, hs, rfl⟩ := Plan.selecting_eq_ok_iff.mp hq
    have ⟨t, ht, hp⟩ := Relation.populated_select hg.nodes.note hn
    cases hs.symm.trans ht
    exact ⟨⟨hp, hg.nodes⟩, hg.scans⟩
  select_failure hg hn he := by
    have ⟨t, ht, _⟩ := Relation.populated_select hg.nodes.note hn
    cases (Plan.selecting_eq_error_iff.mp he).symm.trans ht
  join hl hr hl' hr' hq := by
    obtain ⟨s, hs, rfl⟩ := Plan.joining_eq_ok_iff.mp hq
    have ⟨t, ht, hp⟩ := Relation.populated_join hl.nodes.note hr.nodes.note hl' hr'
    cases hs.symm.trans ht
    exact ⟨⟨hp, hl.nodes, hr.nodes⟩,
      fun r hm => (List.mem_append.mp hm).elim (hl.scans r) (hr.scans r)⟩
  join_failure hl hr hl' hr' he := by
    have ⟨t, ht, _⟩ := Relation.populated_join hl.nodes.note hr.nodes.note hl' hr'
    cases (Plan.joining_eq_error_iff.mp he).symm.trans ht

theorem nonneg : PlanInvariant False (·.Everywhere (Relation.Counts 0)) (fun _ => False) where
  nothing _          := fun _ ha => absurd ha List.not_mem_nil
  project _ _ names h := ⟨Relation.nonneg_project h.note names, h⟩
  inner h            := h.withoutProjection
  present            := False.elim
  product hl hr      := ⟨Relation.nonneg_product hl.note hr.note, hl, hr⟩
  select             := fun {p} _ _ hg _ hq => by
    obtain ⟨s, hs, rfl⟩ := Plan.selecting_eq_ok_iff.mp hq
    have ⟨t, ht, hp⟩ := Relation.nonneg_select hg.note p
    cases hs.symm.trans ht
    exact ⟨hp, hg⟩
  select_failure     := fun {p} _ _ hg _ he => by
    have ⟨t, ht, _⟩ := Relation.nonneg_select hg.note p
    cases (Plan.selecting_eq_error_iff.mp he).symm.trans ht
  join               := fun {p} _ _ _ hl hr _ _ hq => by
    obtain ⟨s, hs, rfl⟩ := Plan.joining_eq_ok_iff.mp hq
    have ⟨t, ht, hp⟩ := Relation.nonneg_join hl.note hr.note p
    cases hs.symm.trans ht
    exact ⟨hp, hl, hr⟩
  join_failure       := fun {p} _ _ _ hl hr _ _ he => by
    have ⟨t, ht, _⟩ := Relation.nonneg_join hl.note hr.note p
    cases (Plan.joining_eq_error_iff.mp he).symm.trans ht

end PlanInvariant
end QueryPlanner
