import QueryPlanner.Proofs.ParallelReshape

namespace QueryPlanner

theorem ensureProjection_eq (names : List String) (plan : Plan Relation) :
    ensureProjection names plan = if plan.operator = .project names then
      plan
    else
      .projecting names plan.withoutProjection := by
  cases plan
  case project _ as i => simp [ensureProjection, Plan.operator, Plan.withoutProjection]
  all_goals exact (if_neg nofun).symm

-- A way to look at estimated plans and their predicates that hides nothing which a step of the
-- optimiser looks at.
structure Plan.View (exact : Prop) (f : Plan Relation → Plan Relation) (g : Predicate → Predicate)
    (h : JoinPredicate → JoinPredicate) : Prop where
  names             : ∀ p, (f p).output.names = p.output.names
  empty             : ∀ p, (f p).tupleCount = 0 ↔ p.tupleCount = 0
  placeholder       : ∀ p, (f p).isPlaceholder = p.isPlaceholder
  nothing           : f .nothing = .nothing
  withoutProjection : ∀ p, f p.withoutProjection = (f p).withoutProjection
  projecting        : ∀ names p, f (.projecting names p) = .projecting names (f p)
  projects          : ∀ names p, (f p).operator = .project names ↔ p.operator = .project names
  multiplying       : ∀ l r, f (.multiplying l r) = .multiplying (f l) (f r)
  selecting         : ∀ {s p q}, selecting s p = .ok q → selecting (g s) (f p) = .ok (f q)
  joining           : ∀ {j l r q}, joining j l r = .ok q → joining (h j) (f l) (f r) = .ok (f q)
  predicates        : ∀ {s t}, Agree exact Predicate.unnumbered s t → g t = g s
  joins             : ∀ {j k}, Agree exact JoinPredicate.unnumbered j k → h k = h j

namespace Plan.View

variable {exact : Prop} {f : Plan Relation → Plan Relation} {g : Predicate → Predicate}
variable {h : JoinPredicate → JoinPredicate} {d e : Demand} (V : View exact f g h)
include V

theorem ensureProjection (names : List String) (p : Plan Relation) :
    f (ensureProjection names p) = ensureProjection names (f p) := by
  rw [ensureProjection_eq, ensureProjection_eq]
  simp only [V.projects]
  split
  case isTrue  => rfl
  case isFalse => rw [V.projecting, V.withoutProjection]

theorem narrowed (d : Demand) (p : Plan Relation) : f (d.narrowed p) = d.narrowed (f p) := by
  have hn  := d.required.map_name_presentIn (V.names p)
  have he  : (d.required.presentIn (f p).output).isEmpty = (d.required.presentIn p.output).isEmpty := by
    simpa using congrArg List.isEmpty hn
  have hl  : (d.required.presentIn (f p).output).length = (d.required.presentIn p.output).length := by
    simpa using congrArg List.length hn
  have hl' : (f p).output.attributes.length = p.output.attributes.length := by
    simpa [Relation.names] using congrArg List.length (V.names p)
  simp only [Demand.narrowed, he, hl, hl', hn]
  split
  case isTrue => rfl
  case isFalse =>
    split
    case isTrue => exact V.nothing
    case isFalse =>
      split
      case isTrue  => rfl
      case isFalse => rw [V.projecting, V.withoutProjection]

theorem simulation (kept : Multiset String) : Simulation exact Eq kept fun _ p q => f q = f p where
  mono _ hs      := hs
  has hs _       := Relation.has_eq_of_names (by rw [← V.names, hs, V.names]) _
  placeholder hs := by rw [← V.placeholder, hs, V.placeholder]
  empty hs       := by rw [← V.empty, hs, V.empty]
  product hl hr  := by rw [V.multiplying, V.multiplying, hl, hr]
  select hs hp _ ho ho' := by
    have hq := V.selecting ho'
    rw [hs, V.predicates hp, V.selecting ho] at hq
    exact (Except.ok.inj hq).symm
  join hl hr hj _ ho ho' := by
    have hq := V.joining ho'
    rw [hl, hr, V.joins hj, V.joining ho] at hq
    exact (Except.ok.inj hq).symm
  narrow {d e p q} ha _ hs := by
    have hd : e.narrowed (f p) = d.narrowed (f p) := by
      rw [Demand.narrowed, ← ha.narrowing, ha.presentIn, Demand.narrowed]
    rw [V.narrowed, hs, hd, V.narrowed]

theorem congruent : Congruent exact fun _ p q => f q = f p where
  simulation       := V.simulation
  any hs           := hs
  nothing          := rfl
  project names hs := by rw [V.ensureProjection, hs, V.ensureProjection]

end Plan.View
end QueryPlanner
