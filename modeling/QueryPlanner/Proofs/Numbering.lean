import Mathlib.Data.List.Basic
import Mathlib.Data.List.Perm.Basic
import QueryPlanner.Predicate
import QueryPlanner.Proofs.TextOrder

namespace QueryPlanner

def Agree {α β : Type} (exact : Prop) (f : α → β) (x y : α) : Prop :=
  f y = f x ∧ (exact → y = x)

-- Two lists of things that agree, in any order. With `exact` they are the same list.
def Shuffled {α β : Type} (exact : Prop) (f : α → β) (xs ys : List α) : Prop :=
  (ys.map f).Perm (xs.map f) ∧ (exact → ys = xs)

namespace Agree

variable {α β γ δ : Type} {exact : Prop} {f : α → β} {x y : α} {xs ys : List α}

theorem refl (x : α) : Agree exact f x x :=
  ⟨rfl, fun _ => rfl⟩

theorem map {h : α → γ} {g : γ → δ} {k : β → δ} (hxy : Agree exact f x y)
    (hg : ∀ a, g (h a) = k (f a)) : Agree exact g (h x) (h y) :=
  ⟨by rw [hg, hg, hxy.left], fun hx => by rw [hxy.right hx]⟩

theorem cons (h : Agree exact (List.map f) (x :: xs) (y :: ys)) :
    Agree exact f x y ∧ Agree exact (List.map f) xs ys := by
  have ⟨hf, he⟩ := h
  rw [List.map_cons, List.map_cons] at hf
  exact ⟨⟨(List.cons.inj hf).left, fun hx => (List.cons.inj (he hx)).left⟩,
    (List.cons.inj hf).right, fun hx => (List.cons.inj (he hx)).right⟩

theorem length (h : Agree exact (List.map f) xs ys) : ys.length = xs.length := by
  simpa using congrArg List.length h.left

theorem forall₂ (h : Agree exact (List.map f) xs ys) : List.Forall₂ (Agree exact f) xs ys := by
  induction xs generalizing ys
  case nil =>
    obtain rfl := List.length_eq_zero_iff.mp h.length
    exact .nil
  case cons hi =>
    cases ys
    case nil  => cases h.length
    case cons => exact .cons h.cons.left (hi h.cons.right)

theorem filter {P Q : α → Bool} {R : β → Bool} (h : Agree exact (List.map f) xs ys)
    (hP : ∀ a ∈ xs, P a = R (f a)) (hQ : ∀ a ∈ ys, Q a = R (f a)) (hPQ : exact → ∀ a ∈ xs, Q a = P a) :
    Agree exact (List.map f) (xs.filter P) (ys.filter Q) := by
  refine ⟨?_, fun hx => ?_⟩
  · rw [List.filter_congr hP, List.filter_congr hQ, ← Function.comp_def R, ← List.filter_map,
      ← List.filter_map, h.left]
  · rw [h.right hx, List.filter_congr (hPQ hx)]

end Agree

namespace Shuffled

variable {α β γ δ : Type} {exact : Prop} {f : α → β} {x y : α} {xs ys xs' ys' : List α}

theorem refl (xs : List α) : Shuffled exact f xs xs :=
  ⟨.refl _, fun _ => rfl⟩

theorem of_perm (h : ys.Perm xs) : Shuffled False f xs ys :=
  ⟨h.map f, nofun⟩

theorem trans {zs : List α} (h : Shuffled exact f xs ys) (h' : Shuffled exact f ys zs) :
    Shuffled exact f xs zs :=
  ⟨h'.left.trans h.left, fun hx => (h'.right hx).trans (h.right hx)⟩

theorem length (h : Shuffled exact f xs ys) : ys.length = xs.length := by
  simpa using h.left.length_eq

theorem append (h : Shuffled exact f xs ys) (h' : Shuffled exact f xs' ys') :
    Shuffled exact f (xs ++ xs') (ys ++ ys') :=
  ⟨by rw [List.map_append, List.map_append]; exact h.left.append h'.left,
    fun hx => by rw [h.right hx, h'.right hx]⟩

theorem of_agree (h : Agree exact f x y) : Shuffled exact f [x] [y] :=
  ⟨by simp [h.left], fun hx => by rw [h.right hx]⟩

theorem exists_agree (h : Shuffled exact f xs ys) (hy : y ∈ ys) : ∃ x ∈ xs, Agree exact f x y := by
  by_cases hx : exact
  case pos => exact ⟨y, h.right hx ▸ hy, .refl y⟩
  case neg =>
    have ⟨x, hm, he⟩ := List.mem_map.mp (h.left.mem_iff.mp (List.mem_map_of_mem hy))
    exact ⟨x, hm, he.symm, (absurd · hx)⟩

theorem exists_agree' (h : Shuffled exact f xs ys) (hm : x ∈ xs) : ∃ y ∈ ys, Agree exact f x y := by
  by_cases hx : exact
  case pos => exact ⟨x, h.right hx ▸ hm, .refl x⟩
  case neg =>
    have ⟨y, hm, he⟩ := List.mem_map.mp (h.left.mem_iff.mpr (List.mem_map_of_mem hm))
    exact ⟨y, hm, he, (absurd · hx)⟩

theorem erase [DecidableEq α] (h : Shuffled exact f xs ys) (ha : Agree exact f x y) (hx : x ∈ xs)
    (hy : y ∈ ys) : Shuffled exact f (xs.erase x) (ys.erase y) := by
  refine ⟨?_, fun he => by rw [h.right he, ha.right he]⟩
  have hxs := (List.perm_cons_erase hx).map f
  have hys := (List.perm_cons_erase hy).map f
  rw [List.map_cons] at hxs hys
  exact List.Perm.cons_inv (ha.left ▸ hys.symm.trans (h.left.trans hxs))

theorem filterMap {f' : γ → δ} {g k : α → Option γ} (r : β → Option δ) (h : Shuffled exact f xs ys)
    (hg : ∀ a ∈ xs, (g a).map f' = r (f a)) (hk : ∀ a ∈ ys, (k a).map f' = r (f a))
    (hgk : exact → ∀ a ∈ xs, k a = g a) : Shuffled exact f' (xs.filterMap g) (ys.filterMap k) := by
  refine ⟨?_, fun hx => by rw [h.right hx]; exact List.filterMap_congr (hgk hx)⟩
  rw [List.map_filterMap, List.map_filterMap, List.filterMap_congr hg, List.filterMap_congr hk]
  have := h.left.filterMap r
  rwa [List.filterMap_map, List.filterMap_map] at this

theorem filter {P Q : α → Bool} (R : β → Bool) (h : Shuffled exact f xs ys)
    (hP : ∀ a ∈ xs, P a = R (f a)) (hQ : ∀ a ∈ ys, Q a = R (f a)) (hPQ : exact → ∀ a ∈ xs, Q a = P a) :
    Shuffled exact f (xs.filter P) (ys.filter Q) := by
  refine ⟨?_, fun hx => by rw [h.right hx, List.filter_congr (hPQ hx)]⟩
  rw [List.filter_congr hP, List.filter_congr hQ, ← Function.comp_def R, ← List.filter_map,
    ← List.filter_map]
  exact h.left.filter R

theorem sortByText (text : α → String) (text' : β → String) (h : Shuffled exact f xs ys)
    (ht : ∀ a, text' (f a) = text a)
    (hi : exact ∨ ∀ a ∈ xs, ∀ b ∈ xs, text a = text b → f a = f b) :
    Agree exact (List.map f) (sortByText text xs) (sortByText text ys) := by
  refine ⟨?_, fun hx => by rw [h.right hx]⟩
  cases hi
  case inl hx => rw [h.right hx]
  case inr hi =>
    have sorted (zs : List α) : (QueryPlanner.sortByText text zs).map f =
        QueryPlanner.sortByText text' (zs.map f) :=
      List.map_mergeSort fun a _ b _ => by rw [ht, ht]
    rw [sorted, sorted]
    refine List.Perm.eq_of_pairwise ?_ (inTextOrder_sortByText ..) (inTextOrder_sortByText ..) <|
      (sortByText_perm ..).trans (h.left.trans (sortByText_perm ..).symm)
    intro b b' hb hb' hle hle'
    rw [mem_sortByText] at hb hb'
    have ⟨a, ha, he⟩ := List.mem_map.mp (h.left.mem_iff.mp hb)
    have ⟨a', ha', he'⟩ := List.mem_map.mp hb'
    have : text' b = text' b' := String.le_antisymm hle hle'
    rw [← he, ← he', ht, ht] at this
    rw [← he, ← he', hi a ha a' ha' this]

end Shuffled

namespace JoinPredicate

def unnumbered (p : JoinPredicate) : JoinPredicate :=
  { p with occurrence := 0 }

variable {p q : JoinPredicate}

@[simp]
theorem unnumbered_text (p : JoinPredicate) : p.unnumbered.text = p.text :=
  rfl

theorem unnumbered_eq_iff : p.unnumbered = q.unnumbered ↔ p.left = q.left ∧ p.right = q.right := by
  simp [unnumbered]

end JoinPredicate

namespace ValuePredicate

def unnumbered (p : ValuePredicate) : ValuePredicate :=
  { p with occurrence := 0 }

variable {p q : ValuePredicate}

theorem unnumbered_eq_iff : p.unnumbered = q.unnumbered ↔ p.name = q.name ∧ p.value = q.value := by
  simp [unnumbered]

end ValuePredicate

namespace Predicate

def unnumbered : Predicate → Predicate
  | join p  => join p.unnumbered
  | value p => value p.unnumbered

@[simp]
theorem unnumbered_text (p : Predicate) : p.unnumbered.text = p.text := by
  cases p <;> rfl

@[simp]
theorem unnumbered_attributes (p : Predicate) : p.unnumbered.attributes = p.attributes := by
  cases p <;> rfl

def join? : Predicate → Option JoinPredicate
  | join p  => some p
  | value _ => none

def value? : Predicate → Option ValuePredicate
  | join _  => none
  | value p => some p

-- The text of a predicate shows where its first attribute ends.
def Legible (p : Predicate) : Prop :=
  ∀ n ∈ p.attributes, '=' ∉ n.toList

instance (p : Predicate) : Decidable p.Legible :=
  inferInstanceAs (Decidable (∀ n ∈ p.attributes, '=' ∉ n.toList))

theorem takeWhile_text {n s : String} (hn : '=' ∉ n.toList) :
    (n ++ "=" ++ s).toList.takeWhile (· ≠ '=') = n.toList := by
  have : (n ++ "=" ++ s).toList = n.toList ++ '=' :: s.toList := by
    simp [String.toList_append]
  rw [this, List.takeWhile_append_of_pos]
  · simp
  · intro c hc
    simp only [ne_eq, decide_not, Bool.not_eq_true', decide_eq_false_iff_not]
    exact fun he => hn (he ▸ hc)

theorem eq_of_text {m n s t : String} (hm : '=' ∉ m.toList) (hn : '=' ∉ n.toList)
    (h : m ++ "=" ++ s = n ++ "=" ++ t) : m = n ∧ s = t := by
  have hmn : m = n := by
    have := congrArg (fun x : String => x.toList.takeWhile (· ≠ '=')) h
    simp only [takeWhile_text hm, takeWhile_text hn] at this
    exact String.toList_inj.mp this
  subst hmn
  exact ⟨rfl, by simpa [String.append_assoc] using h⟩

theorem join_eq_of_text {p q : JoinPredicate} (hp : (join p).Legible) (hq : (join q).Legible)
    (h : p.text = q.text) : p.unnumbered = q.unnumbered := by
  rw [JoinPredicate.unnumbered_eq_iff]
  exact eq_of_text (hp _ (List.mem_cons_self ..)) (hq _ (List.mem_cons_self ..)) h

theorem value_eq_of_text {p q : ValuePredicate} (hp : (value p).Legible) (hq : (value q).Legible)
    (h : p.text = q.text) : p.unnumbered = q.unnumbered := by
  rw [ValuePredicate.unnumbered_eq_iff]
  have text (p : ValuePredicate) : p.text = p.name ++ "=" ++ ("\"" ++ p.value ++ "\"") := by
    simp [ValuePredicate.text, String.ext_iff]
  rw [text, text] at h
  have ⟨hn, hv⟩ := eq_of_text (hp _ (List.mem_cons_self ..)) (hq _ (List.mem_cons_self ..)) h
  refine ⟨hn, ?_⟩
  simpa [String.ext_iff] using hv

end Predicate
end QueryPlanner
