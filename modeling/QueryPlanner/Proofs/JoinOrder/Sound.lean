import Mathlib.Data.Prod.Lex
import QueryPlanner.Proofs.JoinOrder.Moments

namespace QueryPlanner

namespace Redirects

def Climbs (r : Redirects) (size : Nat) : Prop :=
  ∀ h t, r.target? h = some t → h < t ∧ t < size

theorem climbs_empty (size : Nat) : Climbs {} size :=
  fun h t ht => by simp [target?_empty] at ht

namespace Climbs

variable {r : Redirects} {size : Nat} {h t : Handle}

theorem acyclic (hr : r.Climbs size) : r.Acyclic :=
  ⟨id, fun h t ht => (hr h t ht).left⟩

theorem mono {size' : Nat} (hr : r.Climbs size) (hs : size ≤ size') : r.Climbs size' :=
  fun h t ht => ⟨(hr h t ht).left, (hr h t ht).right.trans_le hs⟩

theorem lt_owner (hr : r.Climbs size) (ht : (r.target? h).isSome) :
    h < r.owner h ∧ r.owner h < size := by
  obtain ⟨t, ht⟩ := Option.isSome_iff_exists.mp ht
  refine ⟨Acyclic.rank_lt_rank_owner (fun h t ht => (hr h t ht).left) ht, ?_⟩
  rw [hr.acyclic.owner_of_target? ht]
  cases (r.leads_owner t).cases_tail
  case inl he => exact he.symm ▸ (hr h t ht).right
  case inr hl =>
    obtain ⟨k, _, hk⟩ := hl
    exact (hr k _ hk).right

theorem owner_le (hr : r.Climbs (t + 1)) (hh : h ≤ t) : r.owner h ≤ t := by
  cases ht : r.target? h
  case none   => rwa [hr.acyclic.owner_eq_self ht]
  case some _ => exact Nat.lt_succ_iff.mp (hr.lt_owner (by simp [ht])).right

theorem point (hr : r.Climbs size) (hh : h < t) (ht : t < size) : (r.point h t).Climbs size := by
  intro k u hk
  rw [target?_point] at hk
  split at hk
  case isTrue he => cases hk; exact he ▸ ⟨hh, ht⟩
  case isFalse   => exact hr k u hk

theorem compress (hr : r.Climbs size) (h : Handle) : (r.compress h).Climbs size := by
  suffices hw : ∀ (way : List Handle) (s : Redirects), s.Climbs size →
      (∀ k ∈ way, k < r.owner h ∧ r.owner h < size) →
      (way.foldl (fun s k => s.point k (r.owner h)) s).Climbs size by
    refine hw _ r hr fun k hk => ?_
    obtain ⟨ht, ho⟩ := Acyclic.compress.path_spec hr.acyclic _ _ k hk
    exact ho ▸ hr.lt_owner ht
  intro way
  induction way
  case nil           => exact fun s hs _ => hs
  case cons k way hi =>
    intro s hs hw
    obtain ⟨hk, hw⟩ := List.forall_mem_cons.mp hw
    exact hi _ (hs.point hk.left hk.right) hw

theorem redirect (hr : r.Climbs (t + 1)) (hh : h ≤ t) : (r.redirect h t).Climbs (t + 1) := by
  rw [redirect_eq]
  split
  case isTrue     => exact hr.compress h
  case isFalse hn =>
    exact (hr.compress h).point (lt_of_le_of_ne (hr.owner_le hh) hn) (Nat.lt_succ_self t)

theorem compressAll (hr : r.Climbs size) (hs : List Handle) :
    (hs.foldl Redirects.compress r).Climbs size := by
  induction hs generalizing r
  case nil         => exact hr
  case cons h _ hi => exact hi (hr.compress h)

end Climbs
end Redirects

namespace Components

variable {c c' : Components} {hs leaves : List Handle} {x : Handle} {k : Candidate}
variable {plan : Plan Relation} {ks ls : List Candidate}

structure Orderly (leaves : List Handle) (c : Components) : Prop where
  formed : c.WellFormed
  climbs : c.redirects.Climbs c.plans.size
  inside : ∀ h ∈ leaves, h < c.plans.size

namespace Orderly

theorem lt_size (o : c.Orderly leaves) (hr : c.owner x ∈ c.roots leaves) : x < c.plans.size :=
  o.formed.lt_of_mem_roots o.inside hr

theorem standsFor (o : c.Orderly leaves) (hr : c.owner x ∈ c.roots leaves) :
    ∃ plan, c.StandsFor x plan :=
  o.formed.standsFor (o.lt_size hr)

theorem takeOver (o : c.Orderly leaves) (hr : ∀ h ∈ hs, c.owner h ∈ c.roots leaves)
    (plan : Plan Relation) : (c.takeOver hs plan).Orderly leaves where
  formed := o.formed.takeOver (fun h hh => o.lt_size (hr h hh)) plan
  climbs := by
    rw [plans_takeOver, Array.size_push]
    suffices hf : ∀ (hs : List Handle) (c' : Components), c'.redirects.Climbs (c.plans.size + 1) →
        (∀ h ∈ hs, h ≤ c.plans.size) →
        (hs.foldl (·.redirect · c.plans.size) c').redirects.Climbs (c.plans.size + 1) from
      hf hs _ (o.climbs.mono (Nat.le_succ _)) fun h hh => (o.lt_size (hr h hh)).le
    intro hs
    induction hs
    case nil          => exact fun _ hc _ => hc
    case cons h hs hi =>
      intro c' hc hh
      obtain ⟨hh, hhs⟩ := List.forall_mem_cons.mp hh
      exact hi (c'.redirect h c.plans.size) (hc.redirect hh) hhs
  inside h hh := by
    rw [plans_takeOver, Array.size_push]
    exact Nat.lt_succ_of_lt (o.inside h hh)

end Orderly

structure Later (c c' : Components) : Prop where
  owners     : ∀ x y, c.owner x = c.owner y → c'.owner x = c'.owner y
  eliminated : ∀ x, c.isEliminated x → c'.isEliminated x

namespace Later

theorem isOutstanding (l : c.Later c') (ho : c'.isOutstanding k) : c.isOutstanding k := by
  rw [isOutstanding_iff] at ho ⊢
  have gone {x} (hx : c'.isEliminated x = false) : c.isEliminated x = false :=
    Bool.eq_false_iff.mpr fun he => by simp [l.eliminated x he] at hx
  exact ⟨gone ho.left, gone ho.right.left, fun he => ho.right.right (l.owners _ _ he)⟩

theorem mem_roots (l : c.Later c') (hr : c.owner x ∈ c.roots leaves) :
    c'.owner x ∈ c'.roots leaves := by
  obtain ⟨h, hh, he⟩ := List.mem_map.mp (List.mem_toFinset.mp hr)
  exact l.owners h x he ▸ owner_mem_roots hh

theorem listed (l : c.Later c') (h : ks.filter c.isOutstanding = ls.filter c.isOutstanding) :
    ks.filter c'.isOutstanding = ls.filter c'.isOutstanding := by
  have again (ks : List Candidate) :
      ks.filter c'.isOutstanding = (ks.filter c.isOutstanding).filter c'.isOutstanding := by
    rw [List.filter_filter]
    refine List.filter_congr fun k _ => ?_
    cases ho : c'.isOutstanding k
    case false => rfl
    case true  => rw [l.isOutstanding ho]; rfl
  rw [again ks, again ls, h]

end Later

theorem later_takeOver (hc : c.WellFormed) (he : ∀ h ∈ hs, c.isEliminated h → plan.isPlaceholder) :
    c.Later (c.takeOver hs plan) where
  owners x y hxy := by rw [owner_takeOver hc, owner_takeOver hc, hxy]
  eliminated x hx := by
    obtain ⟨p, hp, hp'⟩ := isEliminated_iff.mp hx
    by_cases ho : c.owner x ∈ hs.map c.owner
    case neg => exact isEliminated_iff.mpr ⟨p, hp.takeOver hc ho, hp'⟩
    case pos =>
      obtain ⟨h, hh, hhx⟩ := List.mem_map.mp ho
      have hh := he h hh (isEliminated_iff.mpr ⟨p, hp.congr hhx, hp'⟩)
      exact isEliminated_iff.mpr ⟨plan, standsFor_takeOver hc ho, hh⟩

end Components

-- Only what nobody needs anything of is cut down to the placeholder.
theorem Demand.narrowed_eq_nothing {d : Demand} {plan : Plan Relation}
    (hp : plan.isPlaceholder = false) (h : (d.narrowed plan).isPlaceholder) :
    d.narrowed plan = .nothing ∧ d.narrowing := by
  generalize hq : d.narrowed plan = q at h
  cases hq ▸ d.narrowed_narrowed plan
  case kept             => simp [hp] at h
  case emptied hn _     => exact ⟨rfl, hn⟩
  case cut              => cases h

theorem Plan.selecting_not_isPlaceholder {p : Predicate} {plan q : Plan Relation}
    (h : Plan.selecting p plan = .ok q) : q.isPlaceholder = false := by
  obtain ⟨s, _, rfl⟩ := Plan.selecting_eq_ok_iff.mp h
  rfl

theorem Demand.narrowed_selecting_nothing {d : Demand} {p : Predicate} {q : Plan Relation}
    (hn : d.narrowing) (h : Plan.selecting p .nothing = .ok q) : d.narrowed q = .nothing := by
  obtain ⟨s, hs, rfl⟩ := Plan.selecting_eq_ok_iff.mp h
  have ha : s.attributes = [] := List.map_eq_nil_iff.mp ((Relation.names_select hs).trans rfl)
  have hr : d.required.presentIn s = [] := by rw [Requirements.presentIn, ha]; rfl
  rw [narrowed, if_neg (by simp [hn]), if_pos]
  exact List.isEmpty_iff.mpr hr

-- A component that is gone after a selection is gone for want of need.
theorem Components.hollow_takeOver {c : Components} {leaves hs : List Handle} {x : Handle} {d : Demand}
    {q : Plan Relation} (o : c.Orderly leaves) (hq : q.isPlaceholder = false)
    (hx : c.owner x ∈ c.roots leaves)
    (hn : c.isEliminated x → c.StandsFor x .nothing ∧ d.narrowing)
    (he : (c.takeOver hs (d.narrowed q)).isEliminated x) :
    (c.takeOver hs (d.narrowed q)).StandsFor x .nothing ∧ d.narrowing := by
  obtain ⟨plan, hp, hpl⟩ := isEliminated_iff.mp he
  by_cases ho : c.owner x ∈ hs.map c.owner
  case pos =>
    obtain rfl := hp.unique (standsFor_takeOver o.formed ho)
    obtain ⟨hnothing, hd⟩ := Demand.narrowed_eq_nothing hq hpl
    exact ⟨hnothing ▸ standsFor_takeOver o.formed ho, hd⟩
  case neg =>
    obtain ⟨old, hold⟩ := o.standsFor hx
    obtain rfl := hp.unique (hold.takeOver o.formed ho)
    obtain ⟨hs, hd⟩ := hn (isEliminated_iff.mpr ⟨plan, hold, hpl⟩)
    exact ⟨hs.takeOver o.formed ho, hd⟩

namespace Moment

variable {options : Options} {leaves : List Handle} {m m' : Moment}

-- What every step of a search keeps up, whatever its leaves are and whatever is demanded:
-- (1) All that candidates and due predicates are about belongs to components that own leaves.
-- (2) A component with due predicates is gone only if nobody needs anything of it.
-- (3) Each combination leaves one component less.
-- (4) Of all candidates there ever were, those that are outstanding are still there, in their order.
structure Sound (leaves : List Handle) (m : Moment) : Prop where
  orderly : m.components.Orderly leaves
  sides   : ∀ k ∈ m.candidates, ∀ h ∈ k.sides, m.components.owner h ∈ m.components.roots leaves
  dues    : ∀ k ∈ m.due, m.components.owner k.1 ∈ m.components.roots leaves
  hollow  : ∀ k ∈ m.due, m.components.isEliminated k.1 →
    m.components.StandsFor k.1 .nothing ∧ m.demand.narrowing
  counted : m.combined.length + (m.components.roots leaves).card = leaves.length
  listed  : m.candidates.filter m.components.isOutstanding =
    m.created.filter m.components.isOutstanding
  spent   : ∀ k ∈ m.combined, m.components.owner k.left = m.components.owner k.right

namespace Sound

open Components

theorem later {plan q : Plan Relation} {k : Handle × JoinPredicate} {d : Demand}
    (s : m.Sound leaves) (hk : k ∈ m.due) (hp : m.components.StandsFor k.1 plan)
    (hq : Plan.selecting (.join k.2) plan = .ok q) (hd : d.narrowing = m.demand.narrowing) :
    m.components.Later (m.components.takeOver [k.1] (d.narrowed q)) :=
  later_takeOver s.orderly.formed <| List.forall_mem_singleton.mpr fun he => by
    obtain ⟨hn, hm⟩ := s.hollow k hk he
    obtain rfl := hp.unique hn
    rw [Demand.narrowed_selecting_nothing (hd ▸ hm) hq]
    rfl

theorem settled (s : m.Sound leaves) : m.settled.Sound leaves where
  orderly := s.orderly
  sides k hk := s.sides k (List.mem_of_mem_filter hk)
  dues k hk := by
    obtain ⟨k', hk', hc⟩ := List.mem_filterMap.mp (mem_sortByText.mp hk)
    obtain ⟨_, _, hl, _⟩ := collapsed?_eq_some_iff.mp hc
    exact hl ▸ s.sides k' hk' k'.left k'.left_mem_sides
  hollow k hk he := by
    obtain ⟨k', hk', hc⟩ := List.mem_filterMap.mp (mem_sortByText.mp hk)
    obtain ⟨hn, _, hl, _⟩ := collapsed?_eq_some_iff.mp hc
    exact Bool.noConfusion (hn.symm.trans (hl ▸ he))
  counted := s.counted
  listed  := by
    refine Eq.trans ?_ s.listed
    rw [Moment.settled, List.filter_filter]
    simp only [Bool.and_self]
  spent := s.spent

theorem connected (s : m.Sound leaves) (hk : m.candidates = []) :
    (m.connected leaves).Sound leaves where
  orderly := s.orderly
  sides k hk := s.orderly.formed.sides_pairs hk
  dues    := s.dues
  hollow  := s.hollow
  counted := s.counted
  listed  := by
    have hn : m.created.filter m.components.isOutstanding = [] := by rw [← s.listed, hk, List.filter_nil]
    rw [Moment.connected, List.filter_append, hn, List.nil_append]
  spent := s.spent

theorem select {plan q : Plan Relation} {k : Handle × JoinPredicate}
    {due : List (Handle × JoinPredicate)} (s : m.Sound leaves) (hd : m.due = k :: due)
    (hp : m.components.StandsFor k.1 plan) (hq : Plan.selecting (.join k.2) plan = .ok q) :
    Sound leaves { m with
      components := m.components.takeOver [k.1] ((m.demand.releaseJoin k.2).narrowed q)
      demand     := m.demand.releaseJoin k.2
      due        := due } := by
  have hk : k ∈ m.due := hd ▸ List.mem_cons_self ..
  have hr : ∀ h ∈ [k.1], m.components.owner h ∈ m.components.roots leaves :=
    List.forall_mem_singleton.mpr (s.dues k hk)
  have hn : (m.demand.releaseJoin k.2).narrowing = m.demand.narrowing := Demand.narrowing_releaseAll ..
  have l := s.later hk hp hq hn
  exact {
    orderly := s.orderly.takeOver hr _
    sides   := fun k' hk' h hh => l.mem_roots (s.sides k' hk' h hh)
    dues    := fun k' hk' => l.mem_roots (s.dues k' (hd ▸ List.mem_cons_of_mem _ hk'))
    hollow  := fun k' hk' =>
      have hk' := hd ▸ List.mem_cons_of_mem k hk'
      hollow_takeOver s.orderly (Plan.selecting_not_isPlaceholder hq) (s.dues k' hk') (hn ▸ s.hollow k' hk')
    counted := by
      have := card_roots_takeOver s.orderly.formed s.orderly.inside (List.cons_ne_nil _ _) hr
        ((m.demand.releaseJoin k.2).narrowed q)
      have hc := s.counted
      rw [List.map_singleton, List.toFinset_cons, List.toFinset_nil, insert_empty_eq,
        Finset.card_singleton] at this
      dsimp only
      omega
    listed  := l.listed s.listed
    spent   := fun k' hk' => l.owners _ _ (s.spent k' hk')
  }

theorem combine {best : Candidate} {plan : Plan Relation} (s : m.Sound leaves)
    (hb : best ∈ m.candidates) (ho : m.components.isOutstanding best) :
    Sound leaves { m with
      components := m.components.takeOver [best.left, best.right] plan
      demand     := best.released m.demand
      due        := []
      candidates := m.candidates.erase best
      combined   := m.combined ++ [best] } := by
  have hr : ∀ h ∈ [best.left, best.right], m.components.owner h ∈ m.components.roots leaves :=
    s.sides best hb
  obtain ⟨hel, her, hne⟩ := isOutstanding_iff.mp ho
  have l : m.components.Later (m.components.takeOver [best.left, best.right] plan) :=
    later_takeOver s.orderly.formed <| Candidate.forall_mem_sides.mpr
      ⟨fun he => absurd he (by simp [hel]), fun he => absurd he (by simp [her])⟩
  have hjoined : (m.components.takeOver [best.left, best.right] plan).owner best.left =
      (m.components.takeOver [best.left, best.right] plan).owner best.right := by
    simp [owner_takeOver s.orderly.formed]
  exact {
    orderly := s.orderly.takeOver hr plan
    sides   := fun k hk h hh => l.mem_roots (s.sides k (List.mem_of_mem_erase hk) h hh)
    dues    := by simp
    hollow  := by simp
    counted := by
      -- Two roots become one, and one more candidate has been combined.
      have := card_roots_takeOver s.orderly.formed s.orderly.inside (List.cons_ne_nil _ _) hr plan
      have hc := s.counted
      rw [List.map_cons, List.map_singleton, List.toFinset_cons, List.toFinset_cons, List.toFinset_nil,
        insert_empty_eq, Finset.card_pair hne] at this
      rw [List.length_append, List.length_singleton]
      dsimp only
      omega
    listed  := by
      dsimp only
      -- The candidate that is erased has both sides in one component now.
      rw [← List.erase_filter, List.erase_of_not_mem]
      · exact l.listed s.listed
      · simp [isOutstanding_iff, hjoined]
    spent   := fun k hk => by
      cases List.mem_append.mp hk
      case inl hk => exact l.owners _ _ (s.spent k hk)
      case inr hk => exact List.mem_singleton.mp hk ▸ hjoined
  }

theorem step (s : m.Sound leaves) (h : m.Step options leaves m') : m'.Sound leaves := by
  cases h
  case select hd hp hq   => exact s.select hd hp hq
  case settle            => exact s.settled
  case connect hk _      => exact s.connected hk
  case combine hd ho hch => exact s.combine hch.first.mem (ho _ hch.first.mem)

theorem reaches (s : m.Sound leaves) (h : m.Reaches options leaves m') : m'.Sound leaves := by
  induction h
  case refl          => exact s
  case tail _ hn hi  => exact hi.step (next_step hn)

end Sound
end Moment
end QueryPlanner
