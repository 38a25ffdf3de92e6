import Mathlib.Data.List.Perm.Subperm
import Mathlib.Logic.Function.Basic
import Mathlib.Logic.Relation
import Mathlib.Order.Lattice
import Mathlib.Order.Nat
import QueryPlanner.JoinOrder.Redirects

namespace QueryPlanner.Redirects

def Leads (r : Redirects) : Handle → Handle → Prop :=
  Relation.ReflTransGen fun h t => r.target? h = some t

def Ranked (r : Redirects) (rank : Handle → Nat) : Prop :=
  ∀ h t, r.target? h = some t → rank h < rank t

-- No handle leads back to itself: every redirect climbs in some ranking.
def Acyclic (r : Redirects) : Prop :=
  ∃ rank, r.Ranked rank

theorem target?_empty (h : Handle) : ({} : Redirects).target? h = none := by
  simp [target?]

theorem target?_point (r : Redirects) (k t h : Handle) :
    (r.point k t).target? h = if k = h then some t else r.target? h := by
  simp [target?, point, Std.TreeMap.getElem?_insert]

theorem redirect_eq (r : Redirects) (h t : Handle) :
    r.redirect h t = if r.owner h = t then r.compress h else (r.compress h).point (r.owner h) t :=
  rfl

theorem acyclic_empty : Acyclic {} :=
  ⟨id, fun h t ht => by simp [target?_empty] at ht⟩

namespace Leads

variable {r : Redirects} {h t t' : Handle}

theorem unique (ht : r.Leads h t) (hn : r.target? t = none)
    (ht' : r.Leads h t') (hn' : r.target? t' = none) : t = t' := by
  induction ht using Relation.ReflTransGen.head_induction_on
  case refl =>
    cases ht'.cases_head
    case inl he => exact he
    case inr hs =>
      have ⟨_, hs, _⟩ := hs
      simp [hn] at hs
  case head h₁ h₂ hs _ hi =>
    cases ht'.cases_head
    case inl he => simp [he, hn'] at hs
    case inr hs' =>
      have ⟨_, hs', hl⟩ := hs'
      cases hs.symm.trans hs'
      exact hi hl

theorem rank_le {rank : Handle → Nat} (hr : r.Ranked rank) (ht : r.Leads h t) :
    rank h ≤ rank t := by
  induction ht
  case refl          => exact le_rfl
  case tail _ hs hi  => exact hi.trans (hr _ _ hs).le

end Leads

variable {r : Redirects} {h k t : Handle}

theorem leads_ownerWithin (r : Redirects) (fuel : Nat) (h : Handle) :
    r.Leads h (r.ownerWithin fuel h) := by
  induction fuel generalizing h
  case zero => exact .refl
  case succ fuel hi =>
    rw [ownerWithin]
    split
    · exact .refl
    · exact .head ‹_› (hi _)

theorem leads_owner (r : Redirects) (h : Handle) : r.Leads h (r.owner h) :=
  r.leads_ownerWithin _ h

-- A way of more than `fuel` steps passes that many different redirected handles.
theorem climbing_of_ownerWithin {rank : Handle → Nat} (hr : r.Ranked rank) (fuel : Nat)
    (hs : (r.target? (r.ownerWithin fuel h)).isSome) :
    ∃ way : List Handle, way.length = fuel + 1 ∧ way.Pairwise (rank · < rank ·) ∧
      ∀ k ∈ way, (r.target? k).isSome ∧ rank h ≤ rank k := by
  induction fuel generalizing h
  case zero => exact ⟨[h], rfl, List.pairwise_singleton .., by simpa [ownerWithin] using hs⟩
  case succ fuel hi =>
    rw [ownerWithin] at hs
    split at hs
    case h_1 hn => simp [hn] at hs
    case h_2 t ht =>
      have ⟨way, hl, hp, hw⟩ := hi hs
      refine ⟨h :: way, by simp [hl], List.pairwise_cons.mpr ⟨fun k hk => ?_, hp⟩, ?_⟩
      · exact (hr _ _ ht).trans_le (hw k hk).right
      · simp only [List.mem_cons, forall_eq_or_imp, ht, Option.isSome_some, le_refl, and_self,
          true_and]
        exact fun k hk => ⟨(hw k hk).left, (hr _ _ ht).le.trans (hw k hk).right⟩

namespace Acyclic

theorem target?_owner (ha : r.Acyclic) (h : Handle) : r.target? (r.owner h) = none := by
  have ⟨rank, hr⟩ := ha
  by_contra hc
  have ⟨way, hl, hp, hw⟩ := climbing_of_ownerWithin hr _ (Option.isSome_iff_ne_none.mpr hc)
  have hn : way.Nodup := hp.imp fun hlt he => by simp [he] at hlt
  have hs : way ⊆ r.targets.keys := fun k hk =>
    Std.TreeMap.mem_keys.mpr (Std.TreeMap.mem_iff_isSome_getElem?.mpr (hw k hk).left)
  have := (List.subperm_of_subset hn hs).length_le
  rw [hl, Std.TreeMap.length_keys] at this
  exact Nat.not_succ_le_self _ this

theorem owner_eq_iff (ha : r.Acyclic) : r.owner h = t ↔ r.Leads h t ∧ r.target? t = none where
  mp he  := he ▸ ⟨r.leads_owner h, ha.target?_owner h⟩
  mpr ht := (r.leads_owner h).unique (ha.target?_owner h) ht.left ht.right

theorem owner_eq_self (ha : r.Acyclic) (hn : r.target? h = none) : r.owner h = h :=
  ha.owner_eq_iff.mpr ⟨.refl, hn⟩

theorem target?_eq_none_iff (ha : r.Acyclic) : r.target? h = none ↔ r.owner h = h where
  mp     := ha.owner_eq_self
  mpr he := he ▸ ha.target?_owner h

theorem owner_owner (ha : r.Acyclic) (h : Handle) : r.owner (r.owner h) = r.owner h :=
  ha.owner_eq_self (ha.target?_owner h)

theorem owner_of_target? (ha : r.Acyclic) (ht : r.target? h = some t) : r.owner h = r.owner t :=
  ha.owner_eq_iff.mpr ⟨.head ht (r.leads_owner t), ha.target?_owner t⟩

theorem rank_lt_rank_owner {rank : Handle → Nat} (hr : r.Ranked rank)
    (ht : r.target? h = some t) : rank h < rank (r.owner h) :=
  have ha : r.Acyclic := ⟨rank, hr⟩
  (hr _ _ ht).trans_le (ha.owner_of_target? ht ▸ (r.leads_owner t).rank_le hr)

theorem point_owner (ha : r.Acyclic) (hk : (r.target? k).isSome) :
    (r.point k (r.owner k)).Acyclic ∧ ∀ h, (r.point k (r.owner k)).owner h = r.owner h := by
  have ⟨rank, hr⟩ := ha
  have ⟨t, ht⟩ := Option.isSome_iff_exists.mp hk
  have ha' : (r.point k (r.owner k)).Acyclic := by
    refine ⟨rank, fun x y hx => ?_⟩
    rw [target?_point] at hx
    split at hx
    case isTrue he  => cases hx; exact he ▸ rank_lt_rank_owner hr ht
    case isFalse    => exact hr _ _ hx
  refine ⟨ha', fun h => ha'.owner_eq_iff.mpr ⟨?_, ?_⟩⟩
  · generalize ho : r.owner h = o
    have hl := ho ▸ r.leads_owner h
    induction hl using Relation.ReflTransGen.head_induction_on
    case refl => exact .refl
    case head x y hx _ hi =>
      by_cases he : k = x
      case pos => exact .single (by simp [target?_point, he, ho])
      case neg =>
        exact .head (by simp [target?_point, he, hx]) (hi (ha.owner_of_target? hx ▸ ho))
  · rw [target?_point, if_neg, ha.target?_owner]
    intro he
    simp [he, ha.target?_owner] at hk

theorem point_of_owners (ha : r.Acyclic) (hk : r.target? k = none) (ht : r.target? t = none)
    (hne : k ≠ t) :
    (r.point k t).Acyclic ∧ ∀ h, (r.point k t).owner h = if r.owner h = k then t else r.owner h := by
  have ⟨rank, hr⟩ := ha
  have ha' : (r.point k t).Acyclic := by
    refine ⟨Function.update rank t (max (rank t) (rank k + 1)), fun x y hx => ?_⟩
    have hy : rank y ≤ Function.update rank t (max (rank t) (rank k + 1)) y := by
      by_cases he : y = t <;> simp [he]
    rw [target?_point] at hx
    split at hx
    case isTrue he => cases hx; cases he; simp [hne]
    case isFalse =>
      have hx' : x ≠ t := fun he => by simp [he, ht] at hx
      simpa [hx'] using (hr _ _ hx).trans_le hy
  refine ⟨ha', fun h => ha'.owner_eq_iff.mpr ?_⟩
  have hl : (r.point k t).Leads h (r.owner h) := by
    generalize ho : r.owner h = o
    have hl := ho ▸ r.leads_owner h
    induction hl using Relation.ReflTransGen.head_induction_on
    case refl => exact .refl
    case head x y hx _ hi =>
      have hkx : k ≠ x := fun he => by simp [← he, hk] at hx
      exact .head (by simp [target?_point, hkx, hx]) (hi (ha.owner_of_target? hx ▸ ho))
  split
  case isTrue he => exact ⟨(he ▸ hl).tail (by simp [target?_point]), by simp [target?_point, hne, ht]⟩
  case isFalse he => exact ⟨hl, by simp [target?_point, Ne.symm he, ha.target?_owner]⟩

theorem compress (ha : r.Acyclic) (h : Handle) :
    (r.compress h).Acyclic ∧ ∀ x, (r.compress h).owner x = r.owner x := by
  suffices hw : ∀ (way : List Handle) (s : Redirects), s.Acyclic → (∀ x, s.owner x = r.owner x) →
      (∀ k ∈ way, (r.target? k).isSome ∧ r.owner k = r.owner h) →
      let s' := way.foldl (fun s k => s.point k (r.owner h)) s
      s'.Acyclic ∧ ∀ x, s'.owner x = r.owner x from
    hw _ r ha (fun _ => rfl) (path_spec r.targets.size h)
  intro way
  induction way
  case nil => exact fun s hs ho _ => ⟨hs, ho⟩
  case cons k way hi =>
    intro s hs ho hw
    have ⟨hk, he⟩ := hw k List.mem_cons_self
    have hk' : (s.target? k).isSome := by
      rw [Option.isSome_iff_ne_none, ne_eq, hs.target?_eq_none_iff, ho, ← ha.target?_eq_none_iff]
      exact Option.isSome_iff_ne_none.mp hk
    have ⟨hs', ho'⟩ := hs.point_owner hk'
    rw [ho, he] at hs' ho'
    exact hi _ hs' (fun x => (ho' x).trans (ho x)) fun k hk => hw k (List.mem_cons_of_mem _ hk)
where
  path_spec (fuel : Nat) (h : Handle) :
      ∀ k ∈ r.pathWithin fuel h, (r.target? k).isSome ∧ r.owner k = r.owner h := by
    induction fuel generalizing h
    case zero => simp [pathWithin]
    case succ fuel hi =>
      rw [pathWithin]
      split
      case h_1 => simp
      case h_2 t ht =>
        simp only [List.mem_cons, forall_eq_or_imp, ht, Option.isSome_some, and_self, true_and]
        exact fun k hk => ⟨(hi t k hk).left, (hi t k hk).right.trans (ha.owner_of_target? ht).symm⟩

theorem redirect (ha : r.Acyclic) (ht : r.target? t = none) (h : Handle) :
    (r.redirect h t).Acyclic ∧
      ∀ x, (r.redirect h t).owner x = if r.owner x = r.owner h then t else r.owner x := by
  have ⟨hc, ho⟩ := ha.compress h
  by_cases he : r.owner h = t
  case pos =>
    rw [redirect_eq, if_pos he]
    refine ⟨hc, fun x => ?_⟩
    rw [ho, he]
    split <;> simp_all
  case neg =>
    rw [redirect_eq, if_neg he]
    have hn {k} (hk : r.target? k = none) : (r.compress h).target? k = none := by
      rwa [hc.target?_eq_none_iff, ho, ← ha.target?_eq_none_iff]
    have ⟨hp, hp'⟩ := hc.point_of_owners (hn (ha.target?_owner h)) (hn ht) he
    exact ⟨hp, fun x => by rw [hp', ho]⟩

end Acyclic
end QueryPlanner.Redirects
