import QueryPlanner.Proofs.JoinOrder.Course

namespace QueryPlanner

open Run (Meets)
open Unlimited

variable {options : Options} {leaves : List Handle} {m m' : Moment} {d : Demand}
variable {qs : List (Plan Relation)} {c : Components} {p : JoinPredicate} {plan : Plan Relation}

structure Components.Fresh (size : Nat) (rest : List JoinPredicate) (c : Components) (d : Demand) :
    Prop where
  redirects : c.redirects = {}
  size      : c.plans.size = size
  pending   : rest.Subperm d.joins

namespace Components.Fresh

variable {size : Nat} {rest : List JoinPredicate}

theorem owner (f : c.Fresh size rest d) (h : Handle) : c.owner h = h := by
  rw [Components.owner, f.redirects]
  exact Redirects.acyclic_empty.owner_eq_self (Redirects.target?_empty h)

theorem standsFor {h : Handle} (f : c.Fresh size rest d) (hh : h < size) : ∃ plan, c.StandsFor h plan :=
  ⟨_, by rw [StandsFor, f.owner]; exact Array.getElem?_eq_getElem (f.size ▸ hh)⟩

theorem skip (f : c.Fresh size (p :: rest) d) : c.Fresh size rest d :=
  { f with pending := (List.sublist_cons_self ..).subperm.trans f.pending }

theorem orderly (f : c.Fresh size rest d) (hl : ∀ h ∈ leaves, h < size) : c.Orderly leaves where
  formed := {
    acyclic := f.redirects ▸ Redirects.acyclic_empty
    inside  := fun h hh => (f.owner h).symm ▸ hh
    outside := fun h _ => f.owner h
  }
  climbs := f.redirects ▸ Redirects.climbs_empty _
  inside h hh := f.size.symm ▸ hl h hh

theorem selectJoin_erases (hp : p ∈ d.joins) (plan : Plan Relation) :
    Meets Failure.IsNegative (selectJoin p plan) d fun _ d' => d'.joins = d.joins.erase p := by
  refine (Run.meets_ofEstimate (Q := fun _ d' => d' = d) (fun _ _ => rfl)
    fun e _ => ⟨e.count, rfl⟩).bind ?_
  rintro q _ rfl
  refine Run.meets_place_bind (Demand.placeJoin_of_mem hp) (Run.meets_pure ?_)
  rw [Demand.releaseAll_eq]

theorem selfJoin (f : c.Fresh size (p :: rest) d) (hl : ∀ h ∈ leaves, h < size) :
    Meets Failure.IsNegative (c.selfJoin leaves p) d fun c' d' => c'.Fresh size rest d' := by
  unfold Components.selfJoin
  split
  case isTrue => exact Run.meets_pure f.skip
  case isFalse =>
    split
    case h_1     => exact Run.meets_pure f.skip
    case h_2 h hf =>
      obtain ⟨plan, hp⟩ := f.standsFor (hl h (List.mem_of_find?_eq_some hf))
      have hrest : rest.Subperm (d.joins.erase p) := by
        have := f.pending.erase p
        rwa [List.erase_cons_head] at this
      rw [hp.plan_eq, pure_bind]
      refine (selectJoin_erases (f.pending.subset (List.mem_cons_self ..)) plan).bind fun q d' hd => ?_
      refine (narrow_result q d').bind ?_
      rintro _ e ⟨rfl, rfl⟩
      refine Run.meets_pure ⟨f.redirects, ?_, hd ▸ hrest⟩
      exact (Array.size_setIfInBounds ..).trans f.size

theorem selfJoins (qs : List (Plan Relation)) (d : Demand) :
    Meets Failure.IsNegative ((ofLeaves qs).selfJoins (List.range qs.length)) d (Fresh qs.length []) := by
  have fresh : (ofLeaves qs).Fresh qs.length (sortByText JoinPredicate.text d.joins) d :=
    ⟨rfl, by simp [ofLeaves], (sortByText_perm ..).subperm⟩
  refine Run.meets_demand_bind <| Run.meets_foldlM (I := Fresh qs.length) (fun _ _ _ _ f => ?_) _ _ _ fresh
  exact f.selfJoin fun h => List.mem_range.mp

theorem start_sound {ks : List Candidate} (f : c.Fresh size rest d) (hn : leaves.Nodup)
    (hl : ∀ h ∈ leaves, h < size) (hs : ∀ k ∈ ks, ∀ h ∈ k.sides, h ∈ leaves) (e : Demand) :
    (Moment.start c ks e).Sound leaves where
  orderly := f.orderly hl
  sides k hk h hh := owner_mem_roots (hs k hk h hh)
  dues    := by simp [Moment.start]
  hollow  := by simp [Moment.start]
  counted := by
    have hr : (c.roots leaves) = leaves.toFinset := by
      rw [roots, funext f.owner, List.map_id']
    change 0 + (c.roots leaves).card = _
    rw [hr, List.toFinset_card_of_nodup hn, Nat.zero_add]
  listed  := rfl
  spent   := by simp [Moment.start]

end Components.Fresh

open Components

theorem sides_of_candidate? {k : Candidate} (hk : c.candidate? leaves p = some k) :
    ∀ h ∈ k.sides, h ∈ leaves := by
  obtain ⟨⟨x, y⟩, hxy, rfl⟩ := Option.map_eq_some_iff.mp hk
  obtain ⟨hx, hy, _⟩ := of_pairFor? hxy
  exact Candidate.forall_mem_sides.mpr ⟨hx, hy⟩

theorem opening_sound (qs : List (Plan Relation)) (d : Demand) :
    Meets Failure.IsNegative (opening qs) d fun r d' => (Moment.start r.2.1 r.2.2 d').Sound r.1 := by
  refine (Fresh.selfJoins qs d).bind fun c' d' f => Run.meets_demand_bind ?_
  refine (joinCandidates_result d'.joins [] rfl (by simp)).bind ?_
  rintro joins e ⟨rfl, rfl⟩
  refine Run.meets_pure (f.start_sound (List.nodup_range.filter _) (fun h hh => ?_) (fun k hk => ?_) _)
  · exact List.mem_range.mp (List.mem_of_mem_filter hh)
  · cases List.mem_append.mp hk
    case inl hk =>
      obtain ⟨p, _, hp⟩ := List.mem_filterMap.mp hk
      exact sides_of_candidate? hp
    case inr hk => exact Candidate.sides_of_mem_products hk

namespace Moment

structure Ends (options : Options) (leaves : List Handle) (m : Moment) (q : Plan Relation) : Prop where
  last  : m.next options leaves = .ok none
  left  : ∀ h ∈ m.components.live leaves, m.components.StandsFor h q
  empty : m.components.live leaves = [] → q.isPlaceholder

-- The steps lead on to a moment with nothing but outstanding candidates. Without any the search is at its
-- end.
def Rests (options : Options) (leaves : List Handle) (m : Moment) (r : Components × List Candidate)
    (d : Demand) : Prop :=
  (∀ k ∈ r.2, r.1.isOutstanding k) ∧ (r.2 = [] → Candidate.pairs (r.1.live leaves) = []) ∧
    ∃ m', m.Reaches options leaves m' ∧ m'.due = [] ∧ m'.components = r.1 ∧ m'.candidates = r.2 ∧
      m'.demand = d

theorem agenda_follows (s : m.Sound leaves) (hd : m.due = []) :
    Meets (m.Fails options leaves) (m.components.agenda leaves m.candidates) m.demand
      (m.Rests options leaves) := by
  refine (settle_go_follows _ hd le_rfl).bind ?_
  rintro ⟨c, ks⟩ d ⟨ho, hr⟩
  dsimp only at ho hr ⊢
  split
  case isFalse hk =>
    exact Run.meets_pure ⟨ho, fun he => absurd (List.isEmpty_iff.mpr he) hk, _, hr, hd, rfl, rfl, rfl⟩
  case isTrue hk =>
    obtain rfl := List.isEmpty_iff.mp hk
    let m₁ : Moment := { m with components := c, candidates := [], demand := d }
    have goal : Meets (m.Fails options leaves) (pure (c, Candidate.pairs (c.live leaves))) d
        (m.Rests options leaves) := by
      refine Run.meets_pure ⟨fun k hk => (s.reaches hr).orderly.formed.isOutstanding_pairs hk, id, ?_⟩
      by_cases hp : Candidate.pairs (c.live leaves) = []
      case pos => exact ⟨m₁, hr, hd, rfl, hp.symm, rfl⟩
      case neg =>
        refine ⟨m₁.connected leaves, hr.tail ?_, hd, rfl, rfl, rfl⟩
        exact next_connect (m := m₁) hd rfl hp
    split
    case isTrue  => exact Run.meets_report_bind goal
    case isFalse => exact goal

-- There are as many rounds as components, and none of them runs out of fuel.
theorem reduce_follows (s : m.Sound leaves) (hd : m.due = []) (hl : leaves ≠ []) (fuel : Nat)
    (hf : (m.components.roots leaves).card ≤ fuel) :
    Meets (m.Fails options leaves) (m.components.reduce options leaves fuel m.candidates) m.demand
      fun q d => ∃ m', m.Reaches options leaves m' ∧ m'.demand = d ∧ m'.Ends options leaves q := by
  induction fuel generalizing m
  case zero =>
    have := card_roots_pos (c := m.components) hl
    omega
  case succ fuel hi =>
    rw [reduce_succ]
    refine (agenda_follows s hd).bind ?_
    rintro ⟨_, ks⟩ _ ⟨ho, hp, m₁, hr, hd₁, rfl, rfl, rfl⟩
    have s₁ := s.reaches hr
    dsimp only at ho hp ⊢
    cases hk : m₁.candidates
    case nil =>
      have hone := Candidate.length_of_pairs_nil (hp hk)
      have hlive : ∀ h ∈ m₁.components.live leaves, ∃ plan, m₁.components.StandsFor h plan :=
        fun h hh => s₁.orderly.standsFor ((s₁.orderly.formed.owner_live hh).symm ▸ (mem_live.mp hh).left)
      refine (finish_total hlive hone).mono fun q d h => ⟨m₁, hr, h.left.symm, ?_⟩
      exact ⟨next_last hd₁ hk (hp hk), h.right.left, h.right.right⟩
    case cons first rest =>
      have ht : m₁.Takes options leaves (m₁.components.combine options first rest) _ :=
        takes_combine hd₁ ho hk
      refine (ht.follows.weaken fun _ => .of_reaches hr).bind ?_
      rintro ⟨best, c⟩ d hn
      have hr₂ := hr.trans hn
      have s₂ := s.reaches hr₂
      -- The round has combined a candidate, for which the components have one root less.
      have hcard : (c.roots leaves).card ≤ fuel := by
        have hc  := s.counted
        have hc₂ := s₂.counted
        have hle := (Reaches.combined_grows hr).length_le
        rw [List.length_append, List.length_singleton] at hc₂
        dsimp only at hc₂
        omega
      rw [← hk]
      refine ((hi s₂ rfl hcard).weaken fun _ => .of_reaches hr₂).mono fun q d h => ?_
      obtain ⟨m', hr', h⟩ := h
      exact ⟨m', hr₂.trans hr', h⟩

def Reached (options : Options) (qs : List (Plan Relation)) (d : Demand) (leaves : List Handle)
    (m : Moment) : Prop :=
  ∃ o, opening qs d = .ok o ∧ o.value.1 = leaves ∧
    (start o.value.2.1 o.value.2.2 o.demand).Reaches options leaves m

theorem Reached.sound (h : Reached options qs d leaves m) : m.Sound leaves := by
  obtain ⟨o, ho, rfl, hr⟩ := h
  exact ((opening_sound qs d).elim ho).reaches hr

theorem ends_of_nil (s : m.Sound leaves) (hd : m.due = []) (hl : leaves = []) :
    m.Ends options leaves .nothing := by
  subst hl
  have hk : m.candidates = [] := List.eq_nil_iff_forall_not_mem.mpr fun k hk => by
    have := s.sides k hk k.left k.left_mem_sides
    simp [roots] at this
  have hlive : m.components.live [] = [] := rfl
  exact {
    last  := next_eq_none_iff.mpr ⟨hd, hk, by rw [hlive]; rfl⟩
    left  := by simp [hlive]
    empty := fun _ => rfl
  }

theorem ends_of_singleton {h : Handle} (s : m.Sound [h]) (hd : m.due = []) (hk : m.candidates = [])
    (hp : m.components.StandsFor h plan) : m.Ends options [h] plan := by
  have ho := s.orderly.formed.owner_owner h
  have hlive : m.components.live [h] =
      if m.components.isEliminated (m.components.owner h) then [] else [m.components.owner h] := by
    rw [live, List.map_singleton, List.eraseDups_cons, List.filter_nil, List.eraseDups_nil,
      List.filter_singleton]
    cases m.components.isEliminated (m.components.owner h) <;> rfl
  refine ⟨next_eq_none_iff.mpr ⟨hd, hk, ?_⟩, fun x hx => ?_, fun hn => ?_⟩
  · rw [hlive]
    split <;> rfl
  · have hx : x = m.components.owner h := by
      rw [hlive] at hx
      split at hx
      · simp at hx
      · simpa using hx
    exact hp.congr (by rw [hx, ho])
  · have he : m.components.isEliminated (m.components.owner h) := by
      by_contra he
      simp [hlive, he] at hn
    obtain ⟨plan', hp', he⟩ := isEliminated_iff.mp he
    exact (hp.congr ho).unique hp' ▸ he

def Breaks (options : Options) (qs : List (Plan Relation)) (d : Demand) (e : Failure) : Prop :=
  e.IsNegative ∧ (opening qs d = .error e ∨
    ∃ leaves m, Reached options qs d leaves m ∧ m.next options leaves = .error e)

theorem joinOrder_follows (options : Options) (root : Operator) (d : Demand) (hq : qs ≠ []) :
    Meets (Breaks options qs d) (joinOrder options root qs) d fun q d' =>
      ∃ leaves m, Reached options qs d leaves m ∧ m.demand = d' ∧ m.Ends options leaves q := by
  rw [joinOrder_eq options root hq]
  refine ((opening_sound qs d).traced.weaken fun e he => ⟨he.left, .inl he.right⟩).bind ?_
  rintro ⟨leaves, c, ks⟩ d' ⟨s, events, ho⟩
  have reached (m : Moment) (hm : (start c ks d').Reaches options leaves m) :
    Reached options qs d leaves m := ⟨_, ho, rfl, hm⟩
  dsimp only at s ⊢
  split
  case h_1     => exact Run.meets_pure ⟨_, _, reached _ .refl, rfl, ends_of_nil s rfl rfl⟩
  case h_2 h =>
    obtain ⟨plan, hp⟩ := s.orderly.standsFor (x := h) (owner_mem_roots (List.mem_singleton_self h))
    rw [show c.plan h = pure plan from hp.plan_eq]
    exact Run.meets_pure ⟨_, _, reached _ .refl, rfl, ends_of_singleton s rfl rfl hp⟩
  case h_3 hl _ =>
    have hr : Meets ((start c ks d').Fails options leaves) _ _ _ := reduce_follows s rfl hl _ card_roots_le
    refine (hr.weaken fun e he => ?_).mono fun q d h => ?_
    · obtain ⟨m', hm', he⟩ := he
      exact ⟨(s.reaches hm').next_isNegative he, .inr ⟨leaves, m', reached m' hm', he⟩⟩
    · obtain ⟨m', hm', h⟩ := h
      exact ⟨leaves, m', reached m' hm', h⟩

end Moment
end QueryPlanner
