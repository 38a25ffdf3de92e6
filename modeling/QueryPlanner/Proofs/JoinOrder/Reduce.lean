import QueryPlanner.Proofs.JoinOrder.Search

namespace QueryPlanner

open Unlimited

namespace Candidate

variable {k : Candidate} {hs : List Handle}

theorem mem_pairs (hn : hs.Nodup) (hk : k ∈ pairs hs) :
    k.predicate = none ∧ k.left ∈ hs ∧ k.right ∈ hs ∧ k.left ≠ k.right := by
  induction hs
  case nil => exact absurd hk List.not_mem_nil
  case cons h hs hi =>
    have ⟨hh, hn⟩ := List.nodup_cons.mp hn
    cases List.mem_append.mp hk
    case inl hk =>
      have ⟨x, hx, he⟩ := List.mem_map.mp hk
      subst he
      exact ⟨rfl, List.mem_cons_self .., List.mem_cons_of_mem _ hx, fun (he : h = x) => hh (he.symm ▸ hx)⟩
    case inr hk =>
      have ⟨hp, hl, hr, hne⟩ := hi hn hk
      exact ⟨hp, List.mem_cons_of_mem _ hl, List.mem_cons_of_mem _ hr, hne⟩

theorem length_of_pairs_nil (h : pairs hs = []) : hs.length ≤ 1 := by
  match hs with
  | [] | [_]    => simp
  | _ :: _ :: _ => simp [pairs] at h

theorem mem_products {paired others : List Handle} (hk : k ∈ products paired hs others) :
    k.predicate = none ∧ k.left ∈ hs ∧ k.right ∈ others := by
  induction hs generalizing others
  case nil => exact absurd hk List.not_mem_nil
  case cons h hs hi =>
    rw [products] at hk
    split at hk
    case isTrue =>
      have ⟨hp, hl, hr⟩ := hi hk
      exact ⟨hp, List.mem_cons_of_mem _ hl, hr⟩
    case isFalse =>
      cases List.mem_append.mp hk
      case inl hk =>
        have ⟨x, hx, he⟩ := List.mem_map.mp hk
        subst he
        exact ⟨rfl, List.mem_cons_self .., List.mem_of_mem_erase hx⟩
      case inr hk =>
        have ⟨hp, hl, hr⟩ := hi hk
        exact ⟨hp, List.mem_cons_of_mem _ hl, List.mem_of_mem_erase hr⟩

theorem sides_of_mem_products {paired : List Handle} (hk : k ∈ products paired hs hs) :
    ∀ h ∈ k.sides, h ∈ hs :=
  forall_mem_sides.mpr (mem_products hk).right

end Candidate

namespace Components

open Candidate (predicates)
open Run (Meets)

variable {exact : Prop} {G : Plan Relation → Prop} {F : Failure → Prop}
variable {leaves : List Handle} {mode : Bool} {kept : Multiset String} {budget : Multiset Part}
variable {c : Components} {ks : List Candidate} {d : Demand}

theorem WellFormed.owner_live {h : Handle} (hc : c.WellFormed) (hh : h ∈ c.live leaves) : c.owner h = h :=
  hc.owner_of_mem_roots (mem_live.mp hh).left

theorem WellFormed.sides_pairs {k : Candidate} (hc : c.WellFormed)
    (hk : k ∈ Candidate.pairs (c.live leaves)) : ∀ h ∈ k.sides, c.owner h ∈ c.roots leaves := by
  obtain ⟨_, hl, hr, _⟩ := Candidate.mem_pairs (nodup_live ..) hk
  have live {h} (hh : h ∈ c.live leaves) : c.owner h ∈ c.roots leaves :=
    (hc.owner_live hh).symm ▸ (mem_live.mp hh).left
  exact Candidate.forall_mem_sides.mpr ⟨live hl, live hr⟩

theorem WellFormed.isOutstanding_pairs {k : Candidate} (hc : c.WellFormed)
    (hk : k ∈ Candidate.pairs (c.live leaves)) : c.isOutstanding k := by
  obtain ⟨_, hl, hr, hne⟩ := Candidate.mem_pairs (nodup_live ..) hk
  rw [isOutstanding_iff, hc.owner_live hl, hc.owner_live hr]
  exact ⟨(mem_live.mp hl).right, (mem_live.mp hr).right, hne⟩

theorem settle_go_meets (I : PlanInvariant exact G F) (hm : exact → mode = false) (fuel : Nat)
    (u : Underway exact G leaves mode kept budget c ks d) (hf : ks.length ≤ fuel) :
    Meets F (settle.go fuel c ks) d fun r d' =>
      Underway exact G leaves mode kept budget r.1 r.2 d' ∧ (∀ k ∈ r.2, r.1.isOutstanding k) ∧
        (r.1.roots leaves).card = (c.roots leaves).card := by
  refine (meets_settle_go (K := fun c' ks' d' => Underway exact G leaves mode kept budget c' ks' d' ∧
    (c'.roots leaves).card = (c.roots leaves).card) ?perm ?settled ?select fuel ⟨u, rfl⟩ hf).mono ?_
  case perm    => exact fun hp h => ⟨h.left.perm hp, h.right⟩
  case settled => exact fun h => ⟨settled_underway h.left I, h.right⟩
  case select  =>
    exact fun h => (selectWithin_meets h.left I hm).mono fun _ _ hs => ⟨hs.left, hs.right.trans h.right⟩
  exact fun _ _ ⟨⟨u, hc⟩, ho⟩ => ⟨u, ho, hc⟩

theorem agenda_meets (I : PlanInvariant exact G F) (hm : exact → mode = false)
    (u : Underway exact G leaves mode kept budget c ks d) :
    Meets F (c.agenda leaves ks) d fun r d' =>
      Underway exact G leaves mode kept budget r.1 r.2 d' ∧ (∀ k ∈ r.2, r.1.isOutstanding k) ∧
        (r.1.roots leaves).card = (c.roots leaves).card ∧
        (r.2 = [] → (r.1.live leaves).length ≤ 1) := by
  refine (settle_go_meets I hm _ u le_rfl).bind fun ⟨c', ls⟩ d' ⟨u', ho, hc⟩ => ?_
  dsimp only at u' ho hc ⊢
  split
  case isFalse hl => exact Run.meets_pure ⟨u', ho, hc, fun he => absurd (List.isEmpty_iff.mpr he) hl⟩
  case isTrue hl =>
    obtain rfl := List.isEmpty_iff.mp hl
    have goal : Meets F (pure (c', Candidate.pairs (c'.live leaves))) d' fun r d' =>
        Underway exact G leaves mode kept budget r.1 r.2 d' ∧ (∀ k ∈ r.2, r.1.isOutstanding k) ∧
          (r.1.roots leaves).card = (c.roots leaves).card ∧
          (r.2 = [] → (r.1.live leaves).length ≤ 1) := by
      refine Run.meets_pure ⟨?_, fun k hk => u'.formed.isOutstanding_pairs hk, hc,
        Candidate.length_of_pairs_nil⟩
      exact u'.products (fun k hk => (Candidate.mem_pairs (nodup_live ..) hk).left)
        fun k hk => u'.formed.sides_pairs hk
    split
    case isTrue  => exact Run.meets_report_bind goal
    case isFalse => exact goal

theorem contentsAt_le {h : Handle} (hr : h ∈ c.roots leaves) : c.contentsAt h ≤ c.contents leaves := by
  rw [contents, ← Finset.add_sum_erase _ _ hr]
  exact Multiset.le_add_right ..

theorem finish_meets (I : PlanInvariant exact G F) (hl : leaves ≠ [])
    (u : Underway exact G leaves mode kept budget c ks d) (hone : (c.live leaves).length ≤ 1) :
    Meets F (c.finish leaves) d fun q d' =>
      d' = d ∧ G q ∧ Retains exact (c.contents leaves) q.contents := by
  -- In the exact case every root is live.
  have all (hx : exact) {h} (hr : h ∈ c.roots leaves) : h ∈ c.live leaves := by
    refine mem_live.mpr ⟨hr, u.not_isEliminated I hx ?_⟩
    exact (u.formed.owner_of_mem_roots hr).symm ▸ hr
  unfold finish
  split
  case h_1 hn =>
    have hx : ¬exact := fun hx => by
      have ⟨h, hh⟩ := List.exists_mem_of_ne_nil _ hl
      have := all hx (owner_mem_roots (c := c) hh)
      simp [hn] at this
    exact Run.meets_pure ⟨rfl, I.nothing hx, .of_le (Multiset.zero_le _) (absurd · hx)⟩
  case h_2 h hs hh =>
    have hr : h ∈ c.roots leaves := (mem_live.mp (hh ▸ List.mem_cons_self ..)).left
    have ho : c.owner h = h := u.formed.owner_of_mem_roots hr
    have ⟨plan, hp, hg⟩ := u.standsFor (ho.symm ▸ hr)
    have hc : plan.contents = c.contentsAt h := by rw [← hp.contentsAt, ho]
    rw [hp.plan_eq]
    refine Run.meets_pure ⟨rfl, hg, .of_le (hc ▸ contentsAt_le hr) fun hx => ?_⟩
    have : c.roots leaves = {h} := Finset.eq_singleton_iff_unique_mem.mpr ⟨hr, fun x hx' => by
      have := all hx hx'
      have hs : hs = [] := by simpa [hh] using hone
      simpa [hh, hs] using this⟩
    rw [contents, this, Finset.sum_singleton, hc]

theorem reduce_meets {options : Options} (I : PlanInvariant exact G F) (hm : exact → mode = false)
    (hl : leaves ≠ []) (fuel : Nat) (hf : (c.roots leaves).card ≤ fuel)
    (u : Underway exact G leaves mode kept budget c ks d) :
    Meets F (c.reduce options leaves fuel ks) d fun q d' =>
      Yields exact G mode kept budget [q] d' := by
  induction fuel generalizing c ks d
  case zero =>
    have := card_roots_pos (c := c) hl
    omega
  case succ fuel hi =>
    rw [reduce]
    refine (agenda_meets I hm u).bind ?_
    rintro ⟨c', ls⟩ d' ⟨u', ho, hc, hone⟩
    dsimp only at u' ho hc hone
    cases ls
    case nil =>
      refine (finish_meets I hl u' (hone rfl)).mono ?_
      rintro q e ⟨he, hg, hr⟩
      subst he
      exact {
        good     := by simpa using hg
        covers   := u'.covers.mono (Multiset.le_add_right ..)
        retained := u'.retained.trans (.add_right (by simpa [predicates] using hr) _)
        narrows  := u'.narrows
      }
    case cons first rest =>
      refine (cheapest_meets u' I).bind ?_
      rintro ⟨best, plan⟩ e ⟨he, hb, hb'⟩
      dsimp only at he hb hb' ⊢
      subst he
      have hp := List.perm_cons_erase hb
      have hne := (isOutstanding_iff.mp (ho best hb)).right.right
      refine (materialise_meets (u'.perm hp) I hm hne hb').bind ?_
      rintro c'' e ⟨u'', hc''⟩
      exact hi (by omega) u''

end Components
end QueryPlanner
