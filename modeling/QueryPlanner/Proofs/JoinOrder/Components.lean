import Mathlib.Algebra.BigOperators.Group.Finset.Basic
import QueryPlanner.JoinOrder.Components
import QueryPlanner.Proofs.JoinOrder.Redirects
import QueryPlanner.Proofs.Plan
import QueryPlanner.Proofs.Run

namespace QueryPlanner.Components

-- Every handle that was given away is owned by one that was given away, and the others are free.
structure WellFormed (c : Components) : Prop where
  acyclic : c.redirects.Acyclic
  inside  : ∀ h < c.plans.size, c.owner h < c.plans.size
  outside : ∀ h, c.plans.size ≤ h → c.owner h = h

def StandsFor (c : Components) (h : Handle) (plan : Plan Relation) : Prop :=
  c.plans[c.owner h]? = some plan

variable {c : Components} {h k : Handle} {plan plan' : Plan Relation} {n : String}

theorem StandsFor.unique (hp : c.StandsFor h plan) (hp' : c.StandsFor h plan') : plan = plan' :=
  Option.some.inj (hp.symm.trans hp')

theorem StandsFor.congr (hp : c.StandsFor h plan) (ho : c.owner k = c.owner h) :
    c.StandsFor k plan := by
  rwa [StandsFor, ho]

theorem StandsFor.mem (hp : c.StandsFor h plan) : plan ∈ c.plans :=
  Array.mem_of_getElem? hp

theorem StandsFor.plan_eq (hp : c.StandsFor h plan) : c.plan h = pure plan := by
  unfold Components.plan
  rw [hp]

theorem provides_iff : c.provides n h ↔ ∃ plan, c.StandsFor h plan ∧ plan.output.has n := by
  simp [provides, StandsFor, Option.any_eq_true]

theorem StandsFor.provides_eq (hp : c.StandsFor h plan) : c.provides n h = plan.output.has n := by
  unfold provides
  rw [hp]
  rfl

theorem StandsFor.has (hp : c.StandsFor h plan) (hn : c.provides n h) : plan.output.has n :=
  hp.provides_eq ▸ hn

theorem isEliminated_iff : c.isEliminated h ↔ ∃ plan, c.StandsFor h plan ∧ plan.isPlaceholder := by
  simp [isEliminated, StandsFor, Option.any_eq_true]

theorem StandsFor.isEliminated_eq (hp : c.StandsFor h plan) :
    c.isEliminated h = plan.isPlaceholder := by
  unfold isEliminated
  rw [hp]
  rfl

theorem hasTuples_iff : c.hasTuples h ↔ ∃ plan, c.StandsFor h plan ∧ 0 < plan.tupleCount := by
  simp [hasTuples, StandsFor, Option.any_eq_true]

theorem provides_congr (ho : c.owner k = c.owner h) : c.provides n k = c.provides n h := by
  simp [provides, ho]

namespace WellFormed

theorem standsFor (hc : c.WellFormed) (hh : h < c.plans.size) : ∃ plan, c.StandsFor h plan :=
  ⟨_, Array.getElem?_eq_getElem (hc.inside h hh)⟩

theorem owner_owner (hc : c.WellFormed) (h : Handle) : c.owner (c.owner h) = c.owner h :=
  hc.acyclic.owner_owner h

theorem lt_size (hc : c.WellFormed) (ho : c.owner h < c.plans.size) : h < c.plans.size := by
  by_contra hh
  exact hh (hc.outside h (not_lt.mp hh) ▸ ho)

end WellFormed

theorem wellFormed_ofLeaves (leaves : List (Plan Relation)) : (ofLeaves leaves).WellFormed where
  acyclic     := Redirects.acyclic_empty
  inside h hh := (Redirects.acyclic_empty.owner_eq_self (Redirects.target?_empty h)).symm ▸ hh
  outside h _ := Redirects.acyclic_empty.owner_eq_self (Redirects.target?_empty h)

theorem owner_ofLeaves (leaves : List (Plan Relation)) (h : Handle) :
    (ofLeaves leaves).owner h = h :=
  Redirects.acyclic_empty.owner_eq_self (Redirects.target?_empty h)

def takeOver (c : Components) (hs : List Handle) (plan : Plan Relation) : Components :=
  hs.foldl (·.redirect · c.plans.size) (c.add plan).2

theorem plans_foldl_redirect (hs : List Handle) (t : Handle) (c : Components) :
    (hs.foldl (·.redirect · t) c).plans = c.plans := by
  induction hs generalizing c
  case nil          => rfl
  case cons _ _ hi  => exact hi _

@[simp]
theorem plans_takeOver (c : Components) (hs : List Handle) (plan : Plan Relation) :
    (c.takeOver hs plan).plans = c.plans.push plan :=
  plans_foldl_redirect ..

theorem owner_foldl_redirect {t : Handle} (hs : List Handle) {c : Components}
    (ha : c.redirects.Acyclic) (ht : c.owner t = t) :
    (hs.foldl (·.redirect · t) c).redirects.Acyclic ∧
      ∀ x, (hs.foldl (·.redirect · t) c).owner x =
        if c.owner x ∈ hs.map c.owner then t else c.owner x := by
  induction hs generalizing c
  case nil => exact ⟨ha, fun x => by simp⟩
  case cons h hs hi =>
    have ⟨ha', ho⟩ := ha.redirect (ha.target?_eq_none_iff.mpr ht) h
    have ho : ∀ x, (c.redirect h t).owner x = if c.owner x = c.owner h then t else c.owner x := ho
    have ⟨ha'', ho'⟩ := hi (c := c.redirect h t) ha' (by rw [ho, ht, ite_self])
    refine ⟨ha'', fun x => (ho' x).trans ?_⟩
    simp only [ho, List.map_cons, List.mem_cons, List.mem_map]
    by_cases hx : c.owner x = c.owner h
    case pos => simp [hx]
    case neg =>
      -- Handles that `t` took over are out of reach for `x`, unless `t` owns `x` already.
      by_cases hxt : c.owner x = t
      case pos => simp [hxt]
      case neg =>
        simp only [hx, if_false, false_or]
        congr 1
        refine propext ⟨fun ⟨k, hk, he⟩ => ⟨k, hk, ?_⟩, fun ⟨k, hk, he⟩ => ⟨k, hk, ?_⟩⟩
        · split at he
          · exact absurd he.symm hxt
          · exact he
        · rw [if_neg (he ▸ hx), he]

section TakeOver

variable {hs leaves : List Handle}

theorem owner_takeOver (hc : c.WellFormed) (hs : List Handle) (plan : Plan Relation) (x : Handle) :
    (c.takeOver hs plan).owner x =
      if c.owner x ∈ hs.map c.owner then c.plans.size else c.owner x :=
  (owner_foldl_redirect hs (c := (c.add plan).2) hc.acyclic (hc.outside _ le_rfl)).right x

theorem WellFormed.takeOver (hc : c.WellFormed) (hh : ∀ h ∈ hs, h < c.plans.size)
    (plan : Plan Relation) : (c.takeOver hs plan).WellFormed where
  acyclic :=
    (owner_foldl_redirect hs (c := (c.add plan).2) hc.acyclic (hc.outside _ le_rfl)).left
  inside x hx := by
    rw [plans_takeOver, Array.size_push] at hx ⊢
    rw [owner_takeOver hc]
    split
    · exact Nat.lt_succ_self _
    · by_cases hx' : x < c.plans.size
      · exact Nat.lt_succ_of_lt (hc.inside x hx')
      · exact (hc.outside x (not_lt.mp hx')).symm ▸ hx
  outside x hx := by
    rw [plans_takeOver, Array.size_push] at hx
    have ho := hc.outside x (Nat.le_of_succ_le hx)
    rw [owner_takeOver hc, if_neg, ho]
    rw [ho, List.mem_map]
    intro ⟨h, hm, he⟩
    exact absurd (hc.inside h (hh h hm)) (he ▸ not_lt.mpr (Nat.le_of_succ_le hx))

theorem standsFor_takeOver (hc : c.WellFormed) (ho : c.owner h ∈ hs.map c.owner) :
    (c.takeOver hs plan).StandsFor h plan := by
  rw [StandsFor, owner_takeOver hc, if_pos ho, plans_takeOver]
  exact Array.getElem?_push_size

theorem StandsFor.takeOver (hp : c.StandsFor h plan) (hc : c.WellFormed)
    (ho : c.owner h ∉ hs.map c.owner) : (c.takeOver hs plan').StandsFor h plan := by
  rw [StandsFor, owner_takeOver hc, if_neg ho, plans_takeOver]
  have hlt : c.owner h < c.plans.size := (Array.getElem?_eq_some_iff.mp hp).1
  rwa [Array.getElem?_push, if_neg hlt.ne]

theorem standsFor_takeOver_iff (hc : c.WellFormed) (hh : h < c.plans.size) :
    (c.takeOver hs plan').StandsFor h plan ↔
      if c.owner h ∈ hs.map c.owner then plan = plan' else c.StandsFor h plan := by
  split
  case isTrue ho =>
    have hq : (c.takeOver hs plan').StandsFor h plan' := standsFor_takeOver hc ho
    exact ⟨fun hp => hp.unique hq, fun he => he ▸ hq⟩
  case isFalse ho =>
    have ⟨r, hr⟩ := hc.standsFor hh
    have hr' : (c.takeOver hs plan').StandsFor h r := hr.takeOver hc ho
    exact ⟨fun hp => hp.unique hr' ▸ hr, fun hp => hp.takeOver hc ho⟩

theorem provides_takeOver (hc : c.WellFormed) (hh : h < c.plans.size) :
    (c.takeOver hs plan).provides n h =
      if c.owner h ∈ hs.map c.owner then plan.output.has n else c.provides n h := by
  have ⟨r, hr⟩ := hc.standsFor hh
  split
  case isTrue ho  => exact (standsFor_takeOver hc ho).provides_eq
  case isFalse ho => exact (hr.takeOver hc ho).provides_eq.trans hr.provides_eq.symm

theorem isEliminated_takeOver (hc : c.WellFormed) (hh : h < c.plans.size) :
    (c.takeOver hs plan).isEliminated h =
      if c.owner h ∈ hs.map c.owner then plan.isPlaceholder else c.isEliminated h := by
  have ⟨r, hr⟩ := hc.standsFor hh
  split
  case isTrue ho  => exact (standsFor_takeOver hc ho).isEliminated_eq
  case isFalse ho => exact (hr.takeOver hc ho).isEliminated_eq.trans hr.isEliminated_eq.symm

end TakeOver

def roots (c : Components) (leaves : List Handle) : Finset Handle :=
  (leaves.map c.owner).toFinset

def contentsAt (c : Components) (h : Handle) : Multiset Part :=
  match c.plans[h]? with
  | some plan => plan.contents
  | none      => 0

-- What the components that own the leaves are made of, taken together.
def contents (c : Components) (leaves : List Handle) : Multiset Part :=
  ∑ h ∈ c.roots leaves, c.contentsAt h

section Contents

variable {hs leaves : List Handle}

theorem StandsFor.contentsAt (hp : c.StandsFor h plan) : c.contentsAt (c.owner h) = plan.contents := by
  unfold Components.contentsAt
  rw [hp]

theorem owner_mem_roots (hh : h ∈ leaves) : c.owner h ∈ c.roots leaves :=
  List.mem_toFinset.mpr (List.mem_map_of_mem hh)

theorem card_roots_pos (hl : leaves ≠ []) : 0 < (c.roots leaves).card := by
  obtain ⟨h, hh⟩ := List.exists_mem_of_ne_nil _ hl
  exact Finset.card_pos.mpr ⟨_, owner_mem_roots hh⟩

theorem card_roots_le : (c.roots leaves).card ≤ leaves.length :=
  (List.toFinset_card_le _).trans (List.length_map c.owner).le

theorem WellFormed.lt_of_mem_roots (hc : c.WellFormed) (hl : ∀ h ∈ leaves, h < c.plans.size)
    (hr : c.owner h ∈ c.roots leaves) : h < c.plans.size := by
  have ⟨k, hk, he⟩ := List.mem_map.mp (List.mem_toFinset.mp hr)
  exact hc.lt_size (he ▸ hc.inside k (hl k hk))

theorem roots_takeOver (hc : c.WellFormed) (hn : hs ≠ [])
    (hr : ∀ h ∈ hs, c.owner h ∈ c.roots leaves) (plan : Plan Relation) :
    (c.takeOver hs plan).roots leaves =
      insert c.plans.size (c.roots leaves \ (hs.map c.owner).toFinset) := by
  ext x
  simp only [roots, Finset.mem_insert, Finset.mem_sdiff, List.mem_toFinset, List.mem_map]
  constructor
  · rintro ⟨k, hk, rfl⟩
    rw [owner_takeOver hc]
    split
    case isTrue      => exact .inl rfl
    case isFalse hne => exact .inr ⟨⟨k, hk, rfl⟩, fun hm => hne (List.mem_map.mpr hm)⟩
  · rintro (rfl | ⟨⟨k, hk, rfl⟩, hne⟩)
    · have ⟨h, hm⟩ := List.exists_mem_of_ne_nil hs hn
      have ⟨k, hk, he⟩ := List.mem_map.mp (List.mem_toFinset.mp (hr h hm))
      exact ⟨k, hk, by rw [owner_takeOver hc, if_pos (he ▸ List.mem_map_of_mem hm)]⟩
    · exact ⟨k, hk, by rw [owner_takeOver hc, if_neg fun hm => hne (List.mem_map.mp hm)]⟩

variable (hc : c.WellFormed) (hl : ∀ h ∈ leaves, h < c.plans.size)
include hc hl

theorem size_not_mem_roots : c.plans.size ∉ c.roots leaves := by
  intro hm
  have ⟨k, hk, he⟩ := List.mem_map.mp (List.mem_toFinset.mp hm)
  exact absurd (he ▸ hc.inside k (hl k hk)) (lt_irrefl _)

theorem card_roots_takeOver (hn : hs ≠ []) (hr : ∀ h ∈ hs, c.owner h ∈ c.roots leaves)
    (plan : Plan Relation) :
    ((c.takeOver hs plan).roots leaves).card + (hs.map c.owner).toFinset.card =
      (c.roots leaves).card + 1 := by
  have hsub : (hs.map c.owner).toFinset ⊆ c.roots leaves := fun x hx => by
    have ⟨h, hm, he⟩ := List.mem_map.mp (List.mem_toFinset.mp hx)
    exact he ▸ hr h hm
  rw [roots_takeOver hc hn hr, Finset.card_insert_of_notMem, ← Finset.card_sdiff_add_card_eq_card hsub]
  · omega
  · exact fun hm => size_not_mem_roots hc hl (Finset.mem_sdiff.mp hm).left

theorem contents_takeOver (hn : hs ≠ []) (hr : ∀ h ∈ hs, c.owner h ∈ c.roots leaves)
    (plan : Plan Relation) :
    (c.takeOver hs plan).contents leaves + ∑ h ∈ (hs.map c.owner).toFinset, c.contentsAt h =
      c.contents leaves + plan.contents := by
  have hsub : (hs.map c.owner).toFinset ⊆ c.roots leaves := fun x hx => by
    have ⟨h, hm, he⟩ := List.mem_map.mp (List.mem_toFinset.mp hx)
    exact he ▸ hr h hm
  have hnew : (c.takeOver hs plan).contentsAt c.plans.size = plan.contents := by
    simp [contentsAt]
  have hold : ∀ x ∈ c.roots leaves \ (hs.map c.owner).toFinset,
      (c.takeOver hs plan).contentsAt x = c.contentsAt x := fun x hx => by
    have hne : x ≠ c.plans.size := fun he =>
      size_not_mem_roots hc hl (he ▸ (Finset.mem_sdiff.mp hx).left)
    simp [contentsAt, Array.getElem?_push, hne]
  rw [contents, roots_takeOver hc hn hr, Finset.sum_insert, hnew, Finset.sum_congr rfl hold,
    contents, ← Finset.sum_sdiff hsub]
  · ac_rfl
  · exact fun hm => size_not_mem_roots hc hl (Finset.mem_sdiff.mp hm).left

end Contents

theorem nodup_eraseDups : (hs : List Handle) → hs.eraseDups.Nodup
  | []      => List.nodup_nil
  | h :: hs => by
    rw [List.eraseDups_cons, List.nodup_cons, List.mem_eraseDups, List.mem_filter]
    exact ⟨by simp, nodup_eraseDups _⟩
termination_by hs => hs.length
decreasing_by exact Nat.lt_succ_of_le (List.length_filter_le ..)

theorem nodup_live (c : Components) (leaves : List Handle) : (c.live leaves).Nodup :=
  (nodup_eraseDups _).filter _

theorem mem_live {leaves : List Handle} :
    h ∈ c.live leaves ↔ h ∈ c.roots leaves ∧ c.isEliminated h = false := by
  simp [live, roots]

theorem WellFormed.owner_of_mem_roots {leaves : List Handle} (hc : c.WellFormed)
    (hr : h ∈ c.roots leaves) : c.owner h = h := by
  have ⟨k, _, he⟩ := List.mem_map.mp (List.mem_toFinset.mp hr)
  exact he ▸ hc.owner_owner k

end QueryPlanner.Components
