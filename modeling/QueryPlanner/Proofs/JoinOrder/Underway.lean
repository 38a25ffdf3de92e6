import QueryPlanner.JoinOrder.Search
import QueryPlanner.Proofs.JoinOrder.Components
import QueryPlanner.Proofs.Placement

namespace QueryPlanner

open Predicate (mentions)

namespace Candidate

theorem left_mem_sides (k : Candidate) : k.left ∈ k.sides :=
  List.mem_cons_self ..

theorem right_mem_sides (k : Candidate) : k.right ∈ k.sides :=
  List.mem_cons_of_mem _ (List.mem_singleton_self _)

theorem forall_mem_sides {P : Handle → Prop} {k : Candidate} :
    (∀ h ∈ k.sides, P h) ↔ P k.left ∧ P k.right :=
  List.forall_mem_cons.trans (and_congr_right fun _ => List.forall_mem_singleton)

def predicates (ks : List Candidate) : Multiset Predicate :=
  ((ks.filterMap (·.predicate)).map Predicate.join : List Predicate)

variable {ks ls : List Candidate}

theorem predicates_append (ks ls : List Candidate) :
    predicates (ks ++ ls) = predicates ks + predicates ls := by
  simp [predicates]

theorem predicates_cons (k : Candidate) (ks : List Candidate) :
    predicates (k :: ks) = predicates [k] + predicates ks :=
  predicates_append [k] ks

theorem predicates_perm (h : ks.Perm ls) : predicates ks = predicates ls :=
  Multiset.coe_eq_coe.mpr ((h.filterMap _).map _)

theorem predicates_of_none (h : ∀ k ∈ ks, k.predicate = none) : predicates ks = 0 := by
  rw [predicates, List.filterMap_eq_nil_iff.mpr h]
  rfl

theorem mem_predicates {p : Predicate} :
    p ∈ predicates ks ↔ ∃ k ∈ ks, ∃ j, k.predicate = some j ∧ p = .join j := by
  simp only [predicates, Multiset.mem_coe, List.mem_map, List.mem_filterMap]
  constructor
  · exact fun ⟨j, ⟨k, hk, hj⟩, hp⟩ => ⟨k, hk, j, hj, hp.symm⟩
  · exact fun ⟨k, hk, j, hj, hp⟩ => ⟨j, ⟨k, hk, hj⟩, hp.symm⟩

def released (k : Candidate) (d : Demand) : Demand :=
  match k.predicate with
  | none   => d
  | some p => d.releaseJoin p

theorem pending_released (k : Candidate) (d : Demand) : (k.released d).pending = d.pending := by
  unfold released
  split
  case h_1 => rfl
  case h_2 => exact Demand.pending_releaseAll ..

theorem narrowing_released (k : Candidate) (d : Demand) : (k.released d).narrowing = d.narrowing := by
  unfold released
  split
  case h_1 => rfl
  case h_2 => exact Demand.narrowing_releaseAll ..

end Candidate

open Candidate (predicates)

theorem Demand.Covers.isRequired_of_mem {d : Demand} {kept : Multiset String} {k : Candidate}
    {ks : List Candidate} {p : JoinPredicate} (h : d.Covers (kept + mentions (predicates ks)))
    (hk : k ∈ ks) (hp : k.predicate = some p) : ∀ n ∈ p.attributes, d.required.isRequired n :=
  fun _ hn => h.isRequired <| Multiset.mem_add.mpr <| .inl <| Multiset.mem_add.mpr <| .inr <|
    Predicate.mem_mentions.mpr ⟨.join p, Candidate.mem_predicates.mpr ⟨k, hk, p, hp, rfl⟩, hn⟩

theorem Narrowed.provides_takeOver {c : Components} {d : Demand} {plan q : Plan Relation}
    {hs : List Handle} {h : Handle} {n : String} (hq : Narrowed d plan q) (hc : c.WellFormed)
    (hh : h < c.plans.size) (hp : ∀ n, ∀ k ∈ hs, c.provides n k → plan.output.has n)
    (hr : d.required.isRequired n) (hn : c.provides n h) : (c.takeOver hs q).provides n h := by
  rw [Components.provides_takeOver hc hh]
  split
  case isFalse => exact hn
  case isTrue ho =>
    have ⟨k, hk, he⟩ := List.mem_map.mp ho
    exact hq.has hr (hp n k hk (Components.provides_congr he ▸ hn))

-- What a join search keeps up with components `c`, outstanding candidates `ks` and demand `d`:
-- (1) The candidates are between components that own leaves, and have their attributes there.
-- (2) These attributes are required, beside the names that are `kept` for others.
-- (3) Components, candidates and pending predicates are made of nothing beyond the `budget`.
structure Underway (exact : Prop) (G : Plan Relation → Prop) (leaves : List Handle) (mode : Bool)
    (kept : Multiset String) (budget : Multiset Part) (c : Components) (ks : List Candidate)
    (d : Demand) : Prop where
  formed   : c.WellFormed
  good     : ∀ plan ∈ c.plans, G plan
  inside   : ∀ h ∈ leaves, h < c.plans.size
  sides    : ∀ k ∈ ks, ∀ h ∈ k.sides, c.owner h ∈ c.roots leaves
  provided : ∀ k ∈ ks, ∀ p, k.predicate = some p →
    c.provides p.left k.left ∧ c.provides p.right k.right
  covers   : d.Covers (kept + mentions (predicates ks))
  retained : Retains exact budget <|
    c.contents leaves + (predicates ks).map .inr + d.pending.map .inr
  narrows  : d.narrowing = mode

namespace Underway

variable {exact : Prop} {G : Plan Relation → Prop} {F : Failure → Prop}
variable {leaves : List Handle} {mode : Bool} {kept : Multiset String} {budget : Multiset Part}
variable {c : Components} {k : Candidate} {ks ls : List Candidate} {d d' : Demand} {h : Handle}
variable {plan q : Plan Relation} {hs : List Handle}

theorem revise (u : Underway exact G leaves mode kept budget c ks d)
    (hs : ∀ k ∈ ls, ∀ h ∈ k.sides, c.owner h ∈ c.roots leaves)
    (hp : ∀ k ∈ ls, ∀ p, k.predicate = some p → c.provides p.left k.left ∧ c.provides p.right k.right)
    (hr : Retains exact (predicates ks) (predicates ls)) :
    Underway exact G leaves mode kept budget c ls d :=
  { u with
    sides    := hs
    provided := hp
    covers   := u.covers.mono (add_le_add_right (Predicate.mentions_mono hr.left) kept)
    retained := u.retained.trans <| .add_right ((Retains.refl _).add (hr.map _)) _ }

theorem perm (u : Underway exact G leaves mode kept budget c ks d) (hp : ks.Perm ls) :
    Underway exact G leaves mode kept budget c ls d :=
  u.revise (fun k hk => u.sides k (hp.mem_iff.mpr hk)) (fun k hk => u.provided k (hp.mem_iff.mpr hk))
    (.of_eq (Candidate.predicates_perm hp).symm)

theorem products (u : Underway exact G leaves mode kept budget c ks d)
    (hn : ∀ k ∈ ls, k.predicate = none) (hs : ∀ k ∈ ls, ∀ h ∈ k.sides, c.owner h ∈ c.roots leaves) :
    Underway exact G leaves mode kept budget c (ks ++ ls) d := by
  refine u.revise (fun k hk => ?_) (fun k hk p hkp => ?_) (.of_eq ?_)
  · exact (List.mem_append.mp hk).elim (u.sides k) (hs k)
  · cases List.mem_append.mp hk
    case inl hk => exact u.provided k hk p hkp
    case inr hk => simp [hn k hk] at hkp
  · rw [Candidate.predicates_append, Candidate.predicates_of_none hn, add_zero]

theorem lt_size (u : Underway exact G leaves mode kept budget c ks d)
    (hr : c.owner h ∈ c.roots leaves) : h < c.plans.size :=
  u.formed.lt_of_mem_roots u.inside hr

theorem standsFor (u : Underway exact G leaves mode kept budget c ks d)
    (hr : c.owner h ∈ c.roots leaves) : ∃ plan, c.StandsFor h plan ∧ G plan :=
  have ⟨plan, hp⟩ := u.formed.standsFor (u.lt_size hr)
  ⟨plan, hp, u.good plan hp.mem⟩

theorem not_isEliminated (u : Underway exact G leaves mode kept budget c ks d)
    (I : PlanInvariant exact G F) (hx : exact) (hr : c.owner h ∈ c.roots leaves) :
    c.isEliminated h = false := by
  have ⟨plan, hp, hg⟩ := u.standsFor hr
  exact hp.isEliminated_eq.trans (I.present hx hg).right

theorem release {p : JoinPredicate} (u : Underway exact G leaves mode kept budget c (k :: ks) d)
    (hp : k.predicate = some p) : (d.releaseJoin p).Covers (kept + mentions (predicates ks)) := by
  have hk : predicates (k :: ks) = .join p ::ₘ predicates ks := by simp [predicates, hp]
  refine Demand.Covers.releaseAll p.attributes ?_
  have := u.covers
  rwa [hk, Predicate.mentions_cons, add_left_comm] at this

theorem covers_released (u : Underway exact G leaves mode kept budget c (k :: ks) d) :
    (k.released d).Covers (kept + mentions (predicates ks)) := by
  unfold Candidate.released
  split
  case h_1 hp =>
    have : predicates (k :: ks) = predicates ks := by simp [predicates, hp]
    exact this ▸ u.covers
  case h_2 hp => exact u.release hp

-- A candidate is realised when a plan that is made of its components and its predicate has taken
-- over the components, and its predicate is released.
theorem realise (u : Underway exact G leaves mode kept budget c (k :: ks) d)
    (I : PlanInvariant exact G F) (hm : exact → mode = false)
    (hn : hs ≠ []) (hr : ∀ h ∈ hs, c.owner h ∈ c.roots leaves) (hg : G plan)
    (hc : plan.contents =
      ∑ h ∈ (hs.map c.owner).toFinset, c.contentsAt h + (predicates [k]).map .inr)
    (hp : ∀ n, ∀ h ∈ hs, c.provides n h → plan.output.has n)
    (hd : d.pending = d'.pending) (hd' : d'.narrowing = d.narrowing)
    (hcov : d'.Covers (kept + mentions (predicates ks))) (hq : Narrowed d' plan q) :
    Underway exact G leaves mode kept budget (c.takeOver hs q) ks d' where
  formed := u.formed.takeOver (fun h hh => u.lt_size (hr h hh)) q
  good plan hplan := by
    rw [Components.plans_takeOver, Array.mem_push] at hplan
    cases hplan
    case inl hplan => exact u.good plan hplan
    case inr hplan => exact hplan ▸ I.narrowed hg (fun he => by rw [hd', u.narrows, hm he]) hq
  inside h hh := by
    rw [Components.plans_takeOver, Array.size_push]
    exact Nat.lt_succ_of_lt (u.inside h hh)
  sides l hl x hx := by
    rw [Components.roots_takeOver u.formed hn hr, Components.owner_takeOver u.formed]
    have := u.sides l (List.mem_cons_of_mem _ hl) x hx
    -- A side that was taken over is a side of the new component from now on.
    split
    case isTrue      => exact Finset.mem_insert_self ..
    case isFalse hne => exact Finset.mem_insert_of_mem (by simp_all)
  provided l hl p hlp := by
    have hmem := List.mem_cons_of_mem k hl
    have keep {x} (hx : x ∈ l.sides) {n} (hn : n ∈ p.attributes) :=
      hq.provides_takeOver u.formed (u.lt_size (u.sides l hmem x hx)) hp
        (hcov.isRequired_of_mem hl hlp n hn)
    have ⟨hl₁, hl₂⟩ := u.provided l hmem p hlp
    exact ⟨keep l.left_mem_sides p.left_mem_attributes hl₁,
      keep l.right_mem_sides p.right_mem_attributes hl₂⟩
  covers := hcov
  retained := by
    have hsum := Components.contents_takeOver u.formed u.inside hn hr q
    have hq : Retains exact plan.contents q.contents :=
      hq.retains fun he => by rw [hd', u.narrows, hm he]
    refine u.retained.trans ?_
    -- What the components had is in the plan now, and cancels out.
    rw [Candidate.predicates_cons, Multiset.map_add, hd]
    refine .add_right (.cancel (u := ∑ h ∈ (hs.map c.owner).toFinset, c.contentsAt h) ?_) _
    refine (Retains.of_eq ?_).trans <|
      (Retains.refl (c.contents leaves + (predicates ks).map .inr)).add hq |>.trans (.of_eq ?_)
    · rw [hc]; ac_rfl
    · rw [add_right_comm _ _ q.contents, ← hsum]; ac_rfl
  narrows := hd'.trans u.narrows

end Underway
end QueryPlanner
