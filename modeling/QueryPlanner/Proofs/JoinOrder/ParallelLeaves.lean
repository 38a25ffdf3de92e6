import QueryPlanner.Proofs.JoinOrder.Leaves
import QueryPlanner.Proofs.JoinOrder.Parallel

namespace QueryPlanner

open Candidate (predicates unnumbered)
open Run (Match Meets)
open Unlimited

variable {exact : Prop} {modes : Bool → Bool → Prop} {kept : Multiset String}
variable {same : (String → Bool) → Plan Relation → Plan Relation → Prop}
variable {G : Plan Relation → Prop} {F : Failure → Prop} {leaves : List Handle} {mode : Bool}
variable {budget : Multiset Part} {options : Options}
variable {c c' : Components} {d d₁ e e₁ : Demand} {h : Handle} {p q : JoinPredicate}
variable {plan plan' : Plan Relation} {qs qs' : List (Plan Relation)} {ks : List Candidate}

theorem Underway.mem_budget {r : Predicate} (u : Underway False G leaves mode kept budget c ks d)
    (hr : r ∈ d.pending) : .inr r ∈ budget :=
  Multiset.mem_of_le u.retained.left <| Multiset.mem_add.mpr <| .inr <| Multiset.mem_map_of_mem _ hr

namespace Components

def candidate? (c : Components) (leaves : List Handle) (p : JoinPredicate) : Option Candidate :=
  (c.pairFor? leaves p).map fun (h, k) => { left := h, right := k, predicate := some p }

theorem pairFor?_unnumbered (c : Components) (leaves : List Handle) (p : JoinPredicate) :
    c.pairFor? leaves p.unnumbered = c.pairFor? leaves p :=
  rfl

theorem candidate?_unnumbered (c : Components) (leaves : List Handle) (p : JoinPredicate) :
    c.candidate? leaves p.unnumbered = (c.candidate? leaves p).map unnumbered := by
  simp only [candidate?, Option.map_map]
  rfl

theorem predicate_of_candidate? {k : Candidate} (hk : c.candidate? leaves p = some k) :
    k.predicate = some p := by
  have ⟨_, _, he⟩ := Option.map_eq_some_iff.mp hk
  exact he ▸ rfl

theorem filter_isNone_candidates (c : Components) (leaves : List Handle) (ps : List JoinPredicate) :
    (ps.filterMap (c.candidate? leaves)).filter (·.predicate.isNone) = [] :=
  List.filter_eq_nil_iff.mpr fun k hk => by
    have ⟨_, _, he⟩ := List.mem_filterMap.mp hk
    simp [predicate_of_candidate? he]

theorem told_candidates {ps : List JoinPredicate} (hl : ∀ p ∈ ps, (Predicate.join p).Legible) :
    ∀ k ∈ ps.filterMap (c.candidate? leaves), ∀ l ∈ ps.filterMap (c.candidate? leaves),
      ∀ p q, k.predicate = some p → l.predicate = some q → p.text = q.text →
        k.unnumbered = l.unnumbered := by
  intro k hk l hl' p q hp hq ht
  obtain ⟨p', hp', hpk⟩ := List.mem_filterMap.mp hk
  obtain ⟨q', hq', hql⟩ := List.mem_filterMap.mp hl'
  obtain rfl : p' = p := Option.some.inj ((predicate_of_candidate? hpk).symm.trans hp)
  obtain rfl : q' = q := Option.some.inj ((predicate_of_candidate? hql).symm.trans hq)
  have hpq := Predicate.join_eq_of_text (hl p' hp') (hl q' hq') ht
  have := (candidate?_unnumbered c leaves p').symm.trans
    ((congrArg (c.candidate? leaves) hpq).trans (candidate?_unnumbered c leaves q'))
  simpa [hpk, hql] using this

section Steps

variable (S : Simulation exact modes kept same)

theorem Mirrors.replace (m : c.Mirrors exact modes same d c' e) (h : Handle)
    (hp : same d.required.isRequired plan plan') :
    (c.replace h plan).Mirrors exact modes same d (c'.replace h plan') e where
  redirects := m.redirects
  size      := by simp [Components.replace, m.size]
  plans x p q hx hq := by
    simp only [Components.replace, Array.getElem?_setIfInBounds, m.size] at hx hq
    split at hx
    case isFalse hne =>
      rw [if_neg hne] at hq
      exact m.plans x p q hx hq
    case isTrue heq =>
      rw [if_pos heq] at hq
      split at hx
      case isFalse => cases hx
      case isTrue hs =>
        rw [if_pos hs] at hq
        cases hx
        cases hq
        exact hp
  demands := m.demands

variable (I : PlanInvariant False G F)
include S I

theorem selfJoin_match {rest : List JoinPredicate} (m : c.Mirrors exact modes same d c' e)
    (s : SelfJoining False G leaves mode kept budget (p :: rest) c d)
    (ha : Agree exact JoinPredicate.unnumbered p q) :
    Match (c.selfJoin leaves p) (c'.selfJoin leaves q) d e
      fun c₁ d₁ c₁' e₁ => c₁.Mirrors exact modes same d₁ c₁' e₁ := by
  obtain ⟨hl, hr⟩ := JoinPredicate.unnumbered_eq_iff.mp ha.left
  have hn := s.covers.isRequired_of_pending (Demand.mem_pending_join.mpr s.mem)
  have hs : q.isSameName = p.isSameName := by simp [JoinPredicate.isSameName, hl, hr]
  have hf : (fun h => c'.provides q.left h && c'.provides q.right h) =
      fun h => c.provides p.left h && c.provides p.right h := by
    funext h
    rw [hl, hr, m.provides S (hn p.left (by simp [Predicate.attributes, JoinPredicate.attributes])),
      m.provides S (hn p.right (by simp [Predicate.attributes, JoinPredicate.attributes]))]
  unfold selfJoin
  rw [hs, hf]
  split
  case isTrue  => exact Run.match_pure m
  case isFalse =>
    split
    case h_1 => exact Run.match_pure m
    case h_2 h hh =>
      obtain ⟨_, plan, hp, hg, hn'⟩ := s.found hh
      obtain ⟨plan', hp', hpp⟩ := m.standsFor hp
      rw [hp.plan_eq, hp'.plan_eq, pure_bind, pure_bind]
      refine ((selectJoin_match S m.demands ha hn hpp).and_meets
        (selectJoin_meets I hg hn' s.covers s.mem)).bind ?_
      rintro r d₁ r' e₁ ⟨⟨ha₁, hn₁, hs₁⟩, hap⟩
      refine (narrow_match S ha₁ hap.covers (S.mono hn₁ hs₁)).bind ?_
      rintro t _ t' _ ⟨rfl, rfl, ht⟩
      exact Run.match_pure ((m.demand S ha₁ hn₁).replace h ht)

theorem selfJoins_match (hb : exact ∨ ∀ r, .inr r ∈ budget → r.Legible)
    (m : c.Mirrors exact modes same d c' e)
    (u : Underway False G leaves mode kept budget c [] d) (ho : ∀ x, c.owner x = x) :
    Match (c.selfJoins leaves) (c'.selfJoins leaves) d e
      fun c₁ d₁ c₁' e₁ => c₁.Mirrors exact modes same d₁ c₁' e₁ := by
  refine Run.match_demand_bind ?_
  have hsort := m.demands.sorted_joins (hb.imp_right fun hb p hp => hb p (u.mem_budget hp))
  exact (Run.match_foldlM
    (I := fun rest c₁ d₁ c₁' e₁ => c₁.Mirrors exact modes same d₁ c₁' e₁ ∧
      SelfJoining False G leaves mode kept budget rest c₁ d₁)
    hsort.forall₂ ⟨m, u, ho, Demand.sortByText_joins_le d⟩ fun _ _ _ _ _ _ _ hpq ⟨m₁, s₁⟩ =>
      (selfJoin_match S I m₁ s₁ hpq).and_meets (selfJoin_meets I nofun s₁)).mono
    fun _ _ _ _ h => h.left

omit I

omit S in
theorem joinCandidates_result (ps qs : List JoinPredicate) (hd : d.joins = qs ++ ps)
    (hq : ∀ q ∈ qs, c.pairFor? leaves q = none) :
    Meets F (c.joinCandidates leaves ps) d fun ks d' => ks = ps.filterMap (c.candidate? leaves) ∧
      d' = { d with joins := qs ++ ps.filter fun p => (c.pairFor? leaves p).isNone } := by
  induction ps generalizing qs d
  case nil => exact Run.meets_pure ⟨rfl, by rw [List.filter_nil, ← hd]⟩
  case cons p ps hi =>
    rw [joinCandidates]
    split
    case h_1 hp =>
      have hq : ∀ q ∈ qs ++ [p], c.pairFor? leaves q = none := by
        simpa [or_imp, forall_and, hp] using hq
      refine (hi (qs ++ [p]) (by simp [hd]) hq).mono ?_
      rintro ks d' ⟨hk, hd'⟩
      constructor
      · simp [candidate?, hp, hk]
      · simp [hp, hd']
    case h_2 h k hp =>
      have hm : p ∈ d.joins := by simp [hd]
      have hn : p ∉ qs := fun hm => by simp [hq p hm] at hp
      have hd' : ({ d with joins := d.joins.erase p } : Demand).joins = qs ++ ps := by
        simp [hd, List.erase_append_right _ hn]
      refine Run.meets_place_bind (Demand.claimJoin_of_mem hm) ?_
      refine (hi qs hd' hq).bind ?_
      rintro ks d' ⟨hk, hd'⟩
      refine Run.meets_pure ⟨?_, ?_⟩
      · simp [candidate?, hp, hk]
      · simp [hp, hd']

theorem pairFor?_congr (m : c.Mirrors exact modes same d c' e)
    (ha : Agree exact JoinPredicate.unnumbered p q)
    (hn : ∀ n ∈ p.attributes, d.required.isRequired n) (leaves : List Handle) :
    c'.pairFor? leaves q = c.pairFor? leaves p := by
  have ⟨hl, hr⟩ := JoinPredicate.unnumbered_eq_iff.mp ha.left
  have hs : q.isSameName = p.isSameName := by simp [JoinPredicate.isSameName, hl, hr]
  unfold pairFor?
  rw [hs, hl, hr, funext (m.provides S (hn _ p.left_mem_attributes)),
    funext (m.provides S (hn _ p.right_mem_attributes))]

-- The pairs of the second run are those that the first one would make of its predicates.
theorem Mirrors.pairFor?_eq (m : c.Mirrors exact modes same d c' e) (hc : d.Covers kept)
    (leaves : List Handle) (hq : q ∈ e.joins) :
    c'.pairFor? leaves q = c.pairFor? leaves q.unnumbered := by
  have ⟨p, hp, ha⟩ := m.demands.joins.exists_agree hq
  have hn := hc.isRequired_of_pending (Demand.mem_pending_join.mpr hp)
  rw [pairFor?_congr S m ha hn, ha.left, pairFor?_unnumbered]

theorem Mirrors.candidates_shuffled (m : c.Mirrors exact modes same d c' e) (hc : d.Covers kept)
    (leaves : List Handle) : Shuffled exact unnumbered (d.joins.filterMap (c.candidate? leaves))
      (e.joins.filterMap (c'.candidate? leaves)) := by
  refine m.demands.joins.filterMap (c.candidate? leaves) (fun p _ => (candidate?_unnumbered ..).symm)
    (fun q hq => ?_) fun hx p hp => ?_
  · rw [← candidate?_unnumbered, candidate?, pairFor?_unnumbered, m.pairFor?_eq S hc leaves hq]
    rfl
  · rw [candidate?, m.pairFor?_eq S hc leaves (m.demands.joins.right hx ▸ hp), pairFor?_unnumbered,
      candidate?]

theorem joinCandidates_match (hb : exact ∨ ∀ r, .inr r ∈ budget → r.Legible)
    (m : c.Mirrors exact modes same d c' e)
    (u : Underway False G leaves mode kept budget c [] d) (leaves : List Handle) :
    Match (c.joinCandidates leaves d.joins) (c'.joinCandidates leaves e.joins) d e
      fun ks d₁ ks' e₁ => c.Mirrors exact modes same d₁ c' e₁ ∧ Queued exact ks ks' := by
  have hcov : d.Covers kept := u.covers.mono (Multiset.le_add_right ..)
  refine Match.of_meets (joinCandidates_result (F := fun _ => True) d.joins [] rfl (by simp))
    (joinCandidates_result (F := fun _ => True) e.joins [] rfl (by simp)) ?_
  rintro _ _ _ _ ⟨rfl, rfl⟩ ⟨rfl, rfl⟩
  constructor
  case left =>
    refine m.demand S { m.demands with joins := ?_ } (fun _ => id)
    refine m.demands.joins.filter (fun p => (c.pairFor? leaves p).isNone) (fun _ _ => rfl)
      (fun q hq => by rw [m.pairFor?_eq S hcov leaves hq]) fun hx p hp => ?_
    rw [m.pairFor?_eq S hcov leaves (m.demands.joins.right hx ▸ hp), pairFor?_unnumbered]
  case right =>
    refine ⟨m.candidates_shuffled S hcov leaves, ?_, hb.imp_right fun hb => told_candidates ?_⟩
    · rw [filter_isNone_candidates, filter_isNone_candidates]
    · exact fun p hp => hb _ (u.mem_budget (Demand.mem_pending_join.mpr hp))

omit S in
theorem Mirrors.ofLeaves (hq : List.Forall₂ (same d.required.isRequired) qs qs')
    (ha : d.Alike exact modes e) :
    (ofLeaves qs).Mirrors exact modes same d (ofLeaves qs') e where
  redirects := rfl
  size      := by simp [Components.ofLeaves, hq.length_eq]
  plans h p q hp hq' := by
    simp only [Components.ofLeaves, List.getElem?_toArray] at hp hq'
    obtain ⟨hi, hp⟩ := List.getElem?_eq_some_iff.mp hp
    obtain ⟨hi', hq'⟩ := List.getElem?_eq_some_iff.mp hq'
    exact hp ▸ hq' ▸ hq.get hi hi'
  demands   := ha

end Steps
end Components

namespace Candidate

theorem products_congr {paired paired' : List Handle} (hp : ∀ h, h ∈ paired' ↔ h ∈ paired)
    (hs others : List Handle) : products paired' hs others = products paired hs others := by
  induction hs generalizing others
  case nil => rfl
  case cons h hs hi =>
    rw [products, products, hi, hi]
    simp only [hp]

theorem mem_sides_of_shuffled {ks ls : List Candidate} (h : Shuffled exact unnumbered ks ls)
    (x : Handle) : x ∈ ls.flatMap sides ↔ x ∈ ks.flatMap sides := by
  have sides_congr {k l : Candidate} (ha : l.unnumbered = k.unnumbered) : l.sides = k.sides := by
    have hl : l.unnumbered.left = k.unnumbered.left := congrArg left ha
    have hr : l.unnumbered.right = k.unnumbered.right := congrArg right ha
    exact congrArg₂ (fun x y => [x, y]) hl hr
  simp only [List.mem_flatMap]
  constructor
  · intro ⟨l, hl, hx⟩
    have ⟨k, hk, ha⟩ := h.exists_agree hl
    exact ⟨k, hk, sides_congr ha.left ▸ hx⟩
  · intro ⟨k, hk, hx⟩
    have ⟨l, hl, ha⟩ := h.exists_agree' hk
    exact ⟨l, hl, (sides_congr ha.left).symm ▸ hx⟩

end Candidate

open Components

-- On leaves that correspond to each other searches open in the same way.
theorem opening_match (S : Simulation exact modes kept same) (I : PlanInvariant False G F)
    (hb : exact ∨ ∀ r, .inr r ∈ budget → r.Legible) (ha : d.Alike exact modes e)
    (hq : List.Forall₂ (same d.required.isRequired) qs qs')
    (y : Yields False G mode kept budget qs d) :
    Match (opening qs) (opening qs') d e fun r d₁ r' e₁ => r'.1 = r.1 ∧
      r.2.1.Mirrors exact modes same d₁ r'.2.1 e₁ ∧ Queued exact r.2.2 r'.2.2 := by
  have u : Underway False G _ mode kept budget _ [] d := .ofLeaves y
  unfold opening
  rw [← hq.length_eq]
  refine ((selfJoins_match S I hb (.ofLeaves hq ha) u (owner_ofLeaves qs)).and_meets
    (selfJoins_meets I nofun u (owner_ofLeaves qs))).bind fun c d₁ c' e₁ ⟨m, u, _⟩ => ?_
  rw [funext (m.hasTuples S)]
  refine Run.match_demand_bind ?_
  refine (joinCandidates_match S hb m (u.filter I) _).bind fun js d₂ js' e₂ ⟨m, q⟩ => ?_
  rw [Candidate.products_congr (Candidate.mem_sides_of_shuffled q.shuffled)]
  exact Run.match_pure ⟨rfl, m, q.append_products fun k hk => (Candidate.mem_products hk).left⟩

theorem joinOrder_match {root root' : Operator} (S : Simulation exact modes kept same)
    (I : PlanInvariant False G F) (ho : Guided exact options same)
    (hb : exact ∨ ∀ r, .inr r ∈ budget → r.Legible) (ha : d.Alike exact modes e)
    (hq : List.Forall₂ (same d.required.isRequired) qs qs')
    (y : Yields False G mode kept budget qs d) :
    Match (joinOrder options root qs) (joinOrder options root' qs') d e
      fun q d₁ q' e₁ => d₁.Alike exact modes e₁ ∧
        (same d₁.required.isRequired q q' ∨ q = .nothing ∧ q' = .nothing) := by
  by_cases hn : qs = []
  case pos =>
    subst hn
    cases hq
    exact Run.match_report_bind (Run.match_pure ⟨ha, .inr ⟨rfl, rfl⟩⟩)
  case neg =>
    have hn' : qs' ≠ [] := fun h => hn (List.forall₂_nil_right_iff.mp (h ▸ hq))
    rw [joinOrder_eq options root hn, joinOrder_eq options root' hn']
    refine ((opening_match S I hb ha hq y).and_meets (opening_meets I nofun y)).bind ?_
    rintro ⟨_, c, ks⟩ d₁ ⟨leaves, c', ks'⟩ e₁ ⟨⟨rfl, m, q⟩, u, _⟩
    dsimp only at m q u ⊢
    match leaves, ks, ks', q.shuffled.length with
    | [], _, _, _ => exact Run.match_pure ⟨m.demands, .inr ⟨rfl, rfl⟩⟩
    | [h], [], [], _ =>
      have ⟨plan, hp, _⟩ := u.standsFor (h := h) (owner_mem_roots (List.mem_singleton_self h))
      have ⟨plan', hp', hs⟩ := m.standsFor hp
      dsimp only
      rw [hp.plan_eq, hp'.plan_eq]
      exact Run.match_pure ⟨m.demands, .inl hs⟩
    | [_], _ :: _, _ :: _, _ => exact reduce_match S I ho _ u m q
    | _ :: _ :: _, _, _, _   => exact reduce_match S I ho _ u m q

end QueryPlanner
