import QueryPlanner.Proofs.Invariant

namespace QueryPlanner

namespace Plan

variable {ν μ : Type} {p : Plan ν} {q l r : Plan Relation} {n : Relation}

theorem estimate_map (f : ν → μ) (p : Plan ν) : (p.map f).estimate = p.estimate := by
  induction p
  case scan             => rfl
  case select g i hi    => exact congrArg (· >>= selecting g) hi
  case project names i hi =>
    exact congrArg (· >>= fun i => return projecting names i) hi
  case product l r hl hr =>
    exact congrArg₂ (fun l r => do return multiplying (← l) (← r)) hl hr
  case join g l r hl hr =>
    exact congrArg₂ (fun l r => do joining g (← l) (← r)) hl hr

-- Estimating the plan anew gives what stands on its nodes.
def Consistent (q : Plan Relation) : Prop :=
  q.estimate = .ok q

theorem estimate_select {m : ν} {f : Predicate} : (Plan.select m f p).estimate = .ok q ↔
    ∃ i n, p.estimate = .ok i ∧ i.output.select f = .ok n ∧ q = select n f i := by
  change (p.estimate >>= selecting f) = _ ↔ _
  cases p.estimate
  case error => simp [bind, Except.bind]
  case ok i  => simp [bind, Except.bind, selecting_eq_ok_iff]

theorem estimate_project {m : ν} {names : List String} : (Plan.project m names p).estimate = .ok q ↔
    ∃ i, p.estimate = .ok i ∧ q = projecting names i := by
  change (p.estimate >>= fun i => return projecting names i) = _ ↔ _
  cases p.estimate <;> simp [bind, Except.bind, pure, Except.pure, eq_comm]

theorem estimate_product {m : ν} {l r : Plan ν} : (Plan.product m l r).estimate = .ok q ↔
    ∃ i j, l.estimate = .ok i ∧ r.estimate = .ok j ∧ q = multiplying i j := by
  change (do return multiplying (← l.estimate) (← r.estimate)) = _ ↔ _
  cases l.estimate
  case error => simp [bind, Except.bind]
  case ok    => cases r.estimate <;> simp [bind, Except.bind, pure, Except.pure, eq_comm]

theorem estimate_join {m : ν} {f : JoinPredicate} {l r : Plan ν} :
    (Plan.join m f l r).estimate = .ok q ↔ ∃ i j n,
      l.estimate = .ok i ∧ r.estimate = .ok j ∧ i.output.join j.output f = .ok n ∧ q = join n f i j := by
  change (do joining f (← l.estimate) (← r.estimate)) = _ ↔ _
  cases l.estimate
  case error => simp [bind, Except.bind]
  case ok    =>
    cases r.estimate
    case error => simp [bind, Except.bind]
    case ok    => simp [bind, Except.bind, joining_eq_ok_iff]

theorem consistent_select {f : Predicate} :
    (select n f q).Consistent ↔ q.Consistent ∧ q.output.select f = .ok n := by
  refine estimate_select.trans ⟨?_, ?_⟩
  · rintro ⟨i, _, hq, hn, ⟨⟩⟩
    exact ⟨hq, hn⟩
  · rintro ⟨hq, hn⟩
    exact ⟨q, n, hq, hn, rfl⟩

theorem consistent_project {names : List String} :
    (project n names q).Consistent ↔ q.Consistent ∧ n = q.output.project names := by
  refine estimate_project.trans ⟨?_, ?_⟩
  · rintro ⟨i, hq, ⟨⟩⟩
    exact ⟨hq, rfl⟩
  · rintro ⟨hq, rfl⟩
    exact ⟨q, hq, rfl⟩

theorem consistent_product : (product n l r).Consistent ↔
    l.Consistent ∧ r.Consistent ∧ n = l.output.product r.output := by
  refine estimate_product.trans ⟨?_, ?_⟩
  · rintro ⟨i, j, hl, hr, ⟨⟩⟩
    exact ⟨hl, hr, rfl⟩
  · rintro ⟨hl, hr, rfl⟩
    exact ⟨l, r, hl, hr, rfl⟩

theorem consistent_join {f : JoinPredicate} : (join n f l r).Consistent ↔
    l.Consistent ∧ r.Consistent ∧ l.output.join r.output f = .ok n := by
  refine estimate_join.trans ⟨?_, ?_⟩
  · rintro ⟨i, j, _, hl, hr, hn, ⟨⟩⟩
    exact ⟨hl, hr, hn⟩
  · rintro ⟨hl, hr, hn⟩
    exact ⟨l, r, n, hl, hr, hn, rfl⟩

end Plan

namespace PlanInvariant

variable {exact : Prop} {G H : Plan Relation → Prop} {F F' : Failure → Prop}

theorem and (I : PlanInvariant exact G F) (J : PlanInvariant exact H F') :
    PlanInvariant exact (fun q => G q ∧ H q) F where
  nothing hx            := ⟨I.nothing hx, J.nothing hx⟩
  project hx _ names h  := ⟨I.project hx names h.left, J.project hx names h.right⟩
  inner h               := ⟨I.inner h.left, J.inner h.right⟩
  present hx _ h        := I.present hx h.left
  product hl hr         := ⟨I.product hl.left hr.left, J.product hl.right hr.right⟩
  select h hn hq        := ⟨I.select h.left hn hq, J.select h.right hn hq⟩
  select_failure h      := I.select_failure h.left
  join hl hr hl' hr' hq := ⟨I.join hl.left hr.left hl' hr' hq, J.join hl.right hr.right hl' hr' hq⟩
  join_failure hl hr    := I.join_failure hl.left hr.left

theorem consistent : PlanInvariant False Plan.Consistent (fun _ => True) where
  nothing _              := rfl
  project _ _ _ h        := Plan.consistent_project.mpr ⟨h, rfl⟩
  inner {plan} h         := by
    cases plan
    case project => exact (Plan.consistent_project.mp h).left
    all_goals exact h
  present                := False.elim
  product hl hr          := Plan.consistent_product.mpr ⟨hl, hr, rfl⟩
  select hg _ hq         := by
    obtain ⟨s, hs, rfl⟩ := Plan.selecting_eq_ok_iff.mp hq
    exact Plan.consistent_select.mpr ⟨hg, hs⟩
  select_failure _ _ _   := trivial
  join hl hr _ _ hq      := by
    obtain ⟨s, hs, rfl⟩ := Plan.joining_eq_ok_iff.mp hq
    exact Plan.consistent_join.mpr ⟨hl, hr, hs⟩
  join_failure _ _ _ _ _ := trivial

theorem scanned {P : NamedRelation → Prop} (hP : P .placeholder) :
    PlanInvariant False (fun q => ∀ r ∈ q.scans, P r) (fun _ => True) where
  nothing _              := by simpa [Plan.nothing, Plan.scanning, Plan.scans] using hP
  project _ _ _ h        := h
  inner h                := by simpa using h
  present                := False.elim
  product hl hr          := fun r hm => (List.mem_append.mp hm).elim (hl r) (hr r)
  select hg _ hq         := by
    obtain ⟨s, hs, rfl⟩ := Plan.selecting_eq_ok_iff.mp hq
    exact hg
  select_failure _ _ _   := trivial
  join hl hr _ _ hq      := by
    obtain ⟨s, hs, rfl⟩ := Plan.joining_eq_ok_iff.mp hq
    exact fun r hm => (List.mem_append.mp hm).elim (hl r) (hr r)
  join_failure _ _ _ _ _ := trivial

end PlanInvariant
end QueryPlanner
