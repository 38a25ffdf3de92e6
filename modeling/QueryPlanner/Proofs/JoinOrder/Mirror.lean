import QueryPlanner.Proofs.JoinOrder.Queue
import QueryPlanner.Proofs.Simulation

namespace QueryPlanner.Components

variable {exact : Prop} {modes : Bool → Bool → Prop} {kept : Multiset String}
variable {same : (String → Bool) → Plan Relation → Plan Relation → Prop}
variable {c c' : Components} {d d₁ e e₁ : Demand} {h : Handle} {k l : Candidate}
variable {plan plan' : Plan Relation}

structure Mirrors (exact : Prop) (modes : Bool → Bool → Prop)
    (same : (String → Bool) → Plan Relation → Plan Relation → Prop)
    (c : Components) (d : Demand) (c' : Components) (e : Demand) : Prop where
  redirects : c'.redirects = c.redirects
  size      : c'.plans.size = c.plans.size
  plans     : ∀ (h : Handle) p q, c.plans[h]? = some p → c'.plans[h]? = some q →
    same d.required.isRequired p q
  demands   : d.Alike exact modes e

namespace Mirrors

variable (S : Simulation exact modes kept same)

theorem owner (m : c.Mirrors exact modes same d c' e) (h : Handle) : c'.owner h = c.owner h := by
  rw [Components.owner, Components.owner, m.redirects]

theorem same_of_standsFor (m : c.Mirrors exact modes same d c' e) (hp : c.StandsFor h plan)
    (hp' : c'.StandsFor h plan') : same d.required.isRequired plan plan' := by
  rw [StandsFor, m.owner] at hp'
  exact m.plans _ _ _ hp hp'

theorem standsFor (m : c.Mirrors exact modes same d c' e) (hp : c.StandsFor h plan) :
    ∃ plan', c'.StandsFor h plan' ∧ same d.required.isRequired plan plan' := by
  have hlt : c'.owner h < c'.plans.size := by
    rw [m.owner, m.size]
    exact (Array.getElem?_eq_some_iff.mp hp).1
  have hp' : c'.StandsFor h c'.plans[c'.owner h] := Array.getElem?_eq_getElem hlt
  exact ⟨_, hp', m.same_of_standsFor hp hp'⟩

theorem any_eq (m : c.Mirrors exact modes same d c' e) {P Q : Plan Relation → Bool}
    (hPQ : ∀ p q, same d.required.isRequired p q → Q q = P p) (h : Handle) :
    c'.plans[c'.owner h]?.any Q = c.plans[c.owner h]?.any P := by
  rw [m.owner]
  cases hp : c.plans[c.owner h]? <;> cases hq : c'.plans[c.owner h]?
  case none.none => rfl
  case some.some => exact hPQ _ _ (m.plans _ _ _ hp hq)
  -- The components have the same handles.
  all_goals
    rw [Array.getElem?_eq_none_iff] at *
    rw [Array.getElem?_eq_some_iff] at *
    have := m.size
    simp_all [not_lt.mpr]

include S

theorem provides (m : c.Mirrors exact modes same d c' e) {n : String} (hn : d.required.isRequired n)
    (h : Handle) : c'.provides n h = c.provides n h :=
  m.any_eq (fun _ _ hs => S.has hs hn) h

theorem isEliminated (m : c.Mirrors exact modes same d c' e) (h : Handle) :
    c'.isEliminated h = c.isEliminated h :=
  m.any_eq (fun _ _ hs => S.placeholder hs) h

theorem hasTuples (m : c.Mirrors exact modes same d c' e) (h : Handle) :
    c'.hasTuples h = c.hasTuples h :=
  m.any_eq (fun _ _ hs => by simp only [Nat.pos_iff_ne_zero, ne_eq, S.empty hs]) h

theorem isOutstanding (m : c.Mirrors exact modes same d c' e) (k : Candidate) :
    c'.isOutstanding k = c.isOutstanding k := by
  simp only [Components.isOutstanding, m.isEliminated S, m.owner]

theorem collapsed? (m : c.Mirrors exact modes same d c' e) (k : Candidate) :
    c'.collapsed? k = c.collapsed? k := by
  simp only [Components.collapsed?, m.isEliminated S, m.owner]

theorem live (m : c.Mirrors exact modes same d c' e) (leaves : List Handle) :
    c'.live leaves = c.live leaves := by
  simp only [Components.live, funext m.owner, funext (m.isEliminated S)]

theorem demand (m : c.Mirrors exact modes same d c' e) (ha : d₁.Alike exact modes e₁)
    (hn : ∀ n, d₁.required.isRequired n → d.required.isRequired n) :
    c.Mirrors exact modes same d₁ c' e₁ :=
  { m with
    plans   := fun h p q hp hq => S.mono hn (m.plans h p q hp hq)
    demands := ha }

omit S

theorem takeOver (m : c.Mirrors exact modes same d c' e) (hs : List Handle)
    (hp : same d.required.isRequired plan plan') :
    (c.takeOver hs plan).Mirrors exact modes same d (c'.takeOver hs plan') e where
  redirects := by
    have redirects (hs : List Handle) (t : Handle) {c c' : Components}
        (hr : c'.redirects = c.redirects) :
        (hs.foldl (·.redirect · t) c').redirects = (hs.foldl (·.redirect · t) c).redirects := by
      induction hs generalizing c c'
      case nil          => exact hr
      case cons h hs hi => exact hi (congrArg (·.redirect h t) hr)
    rw [Components.takeOver, m.size]
    exact redirects hs c.plans.size m.redirects
  size := by simp [m.size]
  plans x p q hx hq := by
    rw [plans_takeOver, Array.getElem?_push] at hx hq
    rw [m.size] at hq
    split at hx
    case isTrue hs =>
      rw [if_pos hs] at hq
      cases hx
      cases hq
      exact hp
    case isFalse hs =>
      rw [if_neg hs] at hq
      exact m.plans x p q hx hq
  demands := m.demands

end Mirrors

def oriented (p : JoinPredicate) (left : Plan Relation) : JoinPredicate :=
  if !left.output.has p.left && left.output.has p.right then p.swapped else p

theorem attributes_oriented {p : JoinPredicate} {left : Plan Relation} {n : String} :
    n ∈ (oriented p left).attributes ↔ n ∈ p.attributes := by
  unfold oriented
  split
  · simp [JoinPredicate.attributes, JoinPredicate.swapped, or_comm]
  · rfl

theorem built?_eq_some_iff : c.built? k = some plan ↔
    ∃ l r, c.StandsFor k.left l ∧ c.StandsFor k.right r ∧
      ((k.predicate = none ∧ plan = .multiplying l r) ∨
        ∃ p, k.predicate = some p ∧ Plan.joining (oriented p l) l r = .ok plan) := by
  unfold built? build Components.plan StandsFor
  cases c.plans[c.owner k.left]?
  case none => simp [bind, Run.bind, Run.fail]
  case some l =>
    cases c.plans[c.owner k.right]?
    case none => simp [bind, Run.bind, Run.fail, pure, Run.pure]
    case some r =>
      simp only [pure_bind]
      cases k.predicate
      case none   => simp [pure, Run.pure, eq_comm]
      case some p =>
        dsimp only
        rw [← oriented]
        unfold Run.ofEstimate
        cases hj : Plan.joining (oriented p l) l r <;> simp [hj]

theorem Mirrors.built (S : Simulation exact modes kept same) (m : c.Mirrors exact modes same d c' e)
    (ha : Agree exact Candidate.unnumbered k l)
    (hn : ∀ p, k.predicate = some p → ∀ n ∈ p.attributes, d.required.isRequired n)
    (hp : c.built? k = some plan) (hp' : c'.built? l = some plan') :
    same d.required.isRequired plan plan' := by
  have ⟨left, right, hl, hr, hk⟩ := built?_eq_some_iff.mp hp
  have ⟨left', right', hl', hr', hk'⟩ := built?_eq_some_iff.mp hp'
  have hleft : l.unnumbered.left = k.unnumbered.left := congrArg Candidate.left ha.left
  have hright : l.unnumbered.right = k.unnumbered.right := congrArg Candidate.right ha.left
  have hpred : l.predicate.map JoinPredicate.unnumbered = k.predicate.map JoinPredicate.unnumbered :=
    congrArg Candidate.predicate ha.left
  have sl := m.same_of_standsFor hl (hleft ▸ hl' : c'.StandsFor k.left left')
  have sr := m.same_of_standsFor hr (hright ▸ hr' : c'.StandsFor k.right right')
  obtain ⟨hk, rfl⟩ | ⟨p, hk, hj⟩ := hk
  case inl =>
    obtain ⟨_, rfl⟩ | ⟨p', hk', _⟩ := hk'
    · exact S.product sl sr
    · simp [hk, hk'] at hpred
  case inr =>
    obtain ⟨hk', _⟩ | ⟨p', hk', hj'⟩ := hk'
    · simp [hk, hk'] at hpred
    · have hpp : p'.unnumbered = p.unnumbered := by simpa [hk, hk'] using hpred
      have ⟨hpl, hpr⟩ := JoinPredicate.unnumbered_eq_iff.mp hpp
      have hag : Agree exact JoinPredicate.unnumbered p p' := by
        refine ⟨hpp, fun hx => ?_⟩
        rw [ha.right hx, hk] at hk'
        exact (Option.some.inj hk').symm
      have hn := hn p hk
      -- Both searches turn the predicate the same way.
      have hor : Agree exact JoinPredicate.unnumbered (oriented p left) (oriented p' left') := by
        have hll := S.has sl (hn _ p.left_mem_attributes)
        have hlr := S.has sl (hn _ p.right_mem_attributes)
        unfold oriented
        rw [hpl, hpr, hll, hlr]
        split
        case isTrue  => exact hag.map (k := JoinPredicate.swapped) fun _ => rfl
        case isFalse => exact hag
      exact S.join sl sr hor (fun n hm => hn n (attributes_oriented.mp hm)) hj hj'

end QueryPlanner.Components
