import QueryPlanner.Text.Basic

namespace QueryPlanner

def InTextOrder {α : Type} (text : α → String) (xs : List α) : Prop :=
  xs.Pairwise (text · ≤ text ·)

variable {α : Type} {text : α → String} {xs ys : List α} {P : α → Bool}

@[simp]
theorem sortByText_nil (text : α → String) : sortByText text [] = [] :=
  List.mergeSort_nil

theorem textOrder_iff (a b : String) : (!decide (b < a)) = true ↔ a ≤ b := by
  rw [Bool.not_eq_true', decide_eq_false_iff_not, String.not_lt]

theorem textOrder_trans (text : α → String) (a b c : α) (hab : (!decide (text b < text a)) = true)
    (hbc : (!decide (text c < text b)) = true) : (!decide (text c < text a)) = true := by
  rw [textOrder_iff] at *
  exact String.le_trans hab hbc

theorem textOrder_total (text : α → String) (a b : α) :
    (!decide (text b < text a) || !decide (text a < text b)) = true := by
  rw [Bool.or_eq_true, textOrder_iff, textOrder_iff]
  exact String.le_total _ _

theorem inTextOrder_sortByText (text : α → String) (xs : List α) :
    InTextOrder text (sortByText text xs) :=
  (List.pairwise_mergeSort (textOrder_trans text) (textOrder_total text) xs).imp
    (textOrder_iff ..).mp

theorem InTextOrder.sublist (h : InTextOrder text xs) (hs : ys.Sublist xs) : InTextOrder text ys :=
  List.Pairwise.sublist hs h

theorem InTextOrder.sortByText_eq (h : InTextOrder text xs) : sortByText text xs = xs :=
  List.mergeSort_of_pairwise (h.imp (textOrder_iff ..).mpr)

-- What is in order already comes out of a longer list in the same order.
theorem InTextOrder.filter_sortByText (h : InTextOrder text xs) (hx : ∀ x ∈ xs, P x)
    (hy : ∀ y ∈ ys, P y = false) : (sortByText text (xs ++ ys)).filter P = xs := by
  have hsub : xs.Sublist (sortByText text (xs ++ ys)) :=
    List.sublist_mergeSort (textOrder_trans text) (textOrder_total text)
      (h.imp (textOrder_iff ..).mpr) (List.sublist_append_left ..)
  have hx : xs.filter P = xs := List.filter_eq_self.mpr hx
  have hy : ys.filter P = [] := List.filter_eq_nil_iff.mpr fun y hm => by simp [hy y hm]
  have hsub := hsub.filter P
  have hperm := (sortByText_perm text (xs ++ ys)).filter P
  rw [List.filter_append, hx, hy, List.append_nil] at hperm
  rw [hx] at hsub
  exact (hsub.eq_of_length hperm.length_eq.symm).symm

end QueryPlanner
