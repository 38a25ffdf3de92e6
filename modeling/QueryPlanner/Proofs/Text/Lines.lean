import Mathlib.Data.List.DropRight
import QueryPlanner.Text.Basic

namespace QueryPlanner.Text

variable {cs ds : List Char} {c sep : Char}

theorem trim_eq (cs : List Char) : trim cs = (cs.dropWhile isBlank).rdropWhile isBlank :=
  rfl

theorem trim_blank_append (h : ∀ c ∈ ds, isBlank c) : trim (ds ++ cs) = trim cs := by
  rw [trim_eq, List.dropWhile_append_of_pos h, ← trim_eq]

theorem rdropWhile_append_blank (h : ∀ c ∈ ds, isBlank c) :
    (cs ++ ds).rdropWhile isBlank = cs.rdropWhile isBlank := by
  simp only [List.rdropWhile, List.reverse_append]
  rw [List.dropWhile_append_of_pos (by simpa using h)]

theorem trim_append_blank (h : ∀ c ∈ ds, isBlank c) : trim (cs ++ ds) = trim cs := by
  rw [trim_eq, trim_eq, List.dropWhile_append]
  split
  · next hn =>
    rw [List.dropWhile_eq_nil_iff.mpr h, List.isEmpty_iff.mp hn]
  · exact rdropWhile_append_blank h

theorem exists_trim (cs : List Char) :
    ∃ l r, (∀ c ∈ l, isBlank c) ∧ (∀ c ∈ r, isBlank c) ∧ cs = l ++ trim cs ++ r := by
  refine ⟨cs.takeWhile isBlank, (cs.dropWhile isBlank).rtakeWhile isBlank,
    fun _ => List.mem_takeWhile_imp, fun _ => List.mem_rtakeWhile_imp, ?_⟩
  rw [List.append_assoc, trim_eq, List.rdropWhile_append_rtakeWhile,
    List.takeWhile_append_dropWhile]

theorem trim_subset (cs : List Char) : trim cs ⊆ cs := by
  obtain ⟨l, r, _, _, h⟩ := exists_trim cs
  intro c m
  rw [h]
  simp [m]

theorem trim_trim (cs : List Char) : trim (trim cs) = trim cs := by
  obtain ⟨l, r, hl, hr, h⟩ := exists_trim cs
  conv_rhs => rw [h]
  rw [trim_append_blank hr, trim_blank_append hl]

theorem trim_of_not_blank (h : ∀ c ∈ cs, isBlank c = false) : trim cs = cs := by
  have hd : cs.dropWhile isBlank = cs :=
    List.dropWhile_eq_self_iff.mpr fun hl => by simp [h _ (List.getElem_mem hl)]
  rw [trim_eq, hd, List.rdropWhile_eq_self_iff]
  exact fun hl => by simp [h _ (List.getLast_mem hl)]

theorem not_blank_of_trim (h : trim cs = c :: ds) : isBlank c = false := by
  have hp : c :: ds <+: cs.dropWhile isBlank := h ▸ List.rdropWhile_prefix isBlank _
  obtain ⟨es, he⟩ := hp
  have hd := List.head?_dropWhile_not isBlank cs
  rwa [← he] at hd

theorem trim_cons_of_not_blank (h : isBlank c = false) (cs : List Char) :
    ∃ ds, trim (c :: cs) = c :: ds := by
  have hd : trim (c :: cs) = (c :: cs).rdropWhile isBlank := by
    rw [trim_eq, List.dropWhile_cons_of_neg (by simp [h])]
  have hp : trim (c :: cs) <+: c :: cs := hd ▸ List.rdropWhile_prefix isBlank _
  cases ht : trim (c :: cs)
  case nil =>
    have hb := List.rdropWhile_eq_nil_iff.mp (hd.symm.trans ht) c List.mem_cons_self
    simp [h] at hb
  case cons d ds =>
    obtain ⟨rfl, _⟩ := List.cons_prefix_cons.mp (ht ▸ hp)
    exact ⟨ds, rfl⟩

theorem splitOn_cons (sep c : Char) (cs : List Char) : ∃ p ps, cs.splitOn sep = p :: ps ∧
    (c :: cs).splitOn sep = if c = sep then [] :: p :: ps else (c :: p) :: ps := by
  obtain ⟨p, ps, h⟩ := List.exists_cons_of_ne_nil (List.splitOn_ne_nil sep cs)
  refine ⟨p, ps, h, ?_⟩
  simp only [List.splitOn_cons_eq_if_modifyHead, h, List.modifyHead_cons, beq_iff_eq]

theorem fields_eq_splitOn (sep : Char) (cs : List Char) : fields sep cs = cs.splitOn sep := by
  induction cs
  case nil => rfl
  case cons c cs hi =>
    obtain ⟨p, ps, h, hc⟩ := splitOn_cons sep c cs
    simp only [fields, hi, h, hc]

theorem not_mem_of_mem_splitOn {p : List Char} (h : p ∈ cs.splitOn sep) : sep ∉ p := by
  induction cs generalizing p
  case nil => simp_all
  case cons c cs hi =>
    obtain ⟨q, qs, hq, hc⟩ := splitOn_cons sep c cs
    rw [hc] at h
    have hs : ∀ p ∈ q :: qs, sep ∉ p := fun _ m => hi (hq ▸ m)
    split at h <;> grind

theorem subset_of_mem_splitOn {p : List Char} (h : p ∈ cs.splitOn sep) : p ⊆ cs := by
  induction cs generalizing p
  case nil => simp_all
  case cons c cs hi =>
    obtain ⟨q, qs, hq, hc⟩ := splitOn_cons sep c cs
    rw [hc] at h
    have hs : ∀ p ∈ q :: qs, ∀ d ∈ p, d ∈ cs := fun _ m d hd => hi (hq ▸ m) hd
    intro d
    split at h <;> grind

theorem splitOn_eq_pair {p q : List Char} :
    cs.splitOn sep = [p, q] ↔ cs = p ++ sep :: q ∧ sep ∉ p ∧ sep ∉ q := by
  constructor
  case mp =>
    intro h
    have hs : ∀ r ∈ [p, q], sep ∉ r := fun _ m => not_mem_of_mem_splitOn (h ▸ m)
    refine ⟨?_, hs p (by simp), hs q (by simp)⟩
    have hi : [sep].intercalate (cs.splitOn sep) = cs := List.intercalate_splitOn sep
    rw [← hi, h]
    simp
  case mpr =>
    rintro ⟨rfl, hp, hq⟩
    rw [List.splitOn_append_cons_self_of_not_mem hp, List.splitOn_eq_singleton hq]

theorem splitOn_prepend (hd : sep ∉ ds) :
    (ds ++ cs).splitOn sep = (cs.splitOn sep).modifyHead (ds ++ ·) := by
  induction ds
  case nil => cases h : cs.splitOn sep <;> simp [h]
  case cons d ds hi =>
    simp only [List.mem_cons, not_or] at hd
    obtain ⟨q, qs, hq⟩ := List.exists_cons_of_ne_nil (List.splitOn_ne_nil sep cs)
    rw [List.cons_append, List.splitOn_cons_eq_if_modifyHead, hi hd.2, hq]
    simp [Ne.symm hd.1]

theorem splitOn_append_last (cs : List Char) (hd : sep ∉ ds) :
    ∃ ps p, cs.splitOn sep = ps ++ [p] ∧ (cs ++ ds).splitOn sep = ps ++ [p ++ ds] := by
  induction cs
  case nil => exact ⟨[], [], rfl, by simp [List.splitOn_eq_singleton hd]⟩
  case cons c cs hi =>
    obtain ⟨ps, p, h, h'⟩ := hi
    rw [List.cons_append, List.splitOn_cons_eq_if_modifyHead, List.splitOn_cons_eq_if_modifyHead,
      h, h']
    split
    · exact ⟨[] :: ps, p, rfl, rfl⟩
    · cases ps
      case nil => exact ⟨[], c :: p, rfl, rfl⟩
      case cons q qs => exact ⟨(c :: q) :: qs, p, rfl, rfl⟩

theorem mem_intercalate {ps : List (List Char)} (h : c ∈ [sep].intercalate ps) :
    c = sep ∨ ∃ p ∈ ps, c ∈ p := by
  induction ps
  case nil => contradiction
  case cons p ps hi =>
    cases ps
    case nil => exact .inr ⟨p, by simp, by simpa using h⟩
    case cons q qs =>
      rw [List.intercalate_cons_cons] at h
      grind

theorem isPrefix_intercalate (sep : Char) {ps qs : List (List Char)} (h : ps <+: qs) :
    [sep].intercalate ps <+: [sep].intercalate qs := by
  induction ps generalizing qs
  case nil => exact List.nil_prefix
  case cons p ps hi =>
    obtain ⟨rs, rfl⟩ := h
    cases ps
    case nil =>
      rw [List.intercalate_singleton]
      cases rs
      case nil => simp
      case cons r rs => simp [List.intercalate_cons_cons]
    case cons q ps =>
      rw [List.cons_append, List.cons_append, List.intercalate_cons_cons,
        List.intercalate_cons_cons, List.prefix_append_right_inj]
      exact hi (List.prefix_append (q :: ps) rs)

theorem map_trim_splitOn_trim (hs : isBlank sep = false) (cs : List Char) :
    ((trim cs).splitOn sep).map trim = (cs.splitOn sep).map trim := by
  obtain ⟨l, r, hl, hr, h⟩ := exists_trim cs
  have hsl : sep ∉ l := fun m => by simp [hl sep m] at hs
  have hsr : sep ∉ r := fun m => by simp [hr sep m] at hs
  obtain ⟨ps, p, hp, hp'⟩ := splitOn_append_last (l ++ trim cs) hsr
  conv_rhs => rw [h, hp']
  obtain ⟨q, qs, hq⟩ := List.exists_cons_of_ne_nil (List.splitOn_ne_nil sep (trim cs))
  rw [splitOn_prepend hsl, hq] at hp
  calc ((trim cs).splitOn sep).map trim
    _ = ((l ++ q) :: qs).map trim := by rw [hq, List.map_cons, List.map_cons, trim_blank_append hl]
    _ = (ps ++ [p]).map trim := by rw [← hp, List.modifyHead_cons]
    _ = (ps ++ [p ++ r]).map trim := by simp [trim_append_blank hr]

def unlines (ls : List (List Char)) : List Char :=
  ls.flatMap (· ++ ['\n'])

theorem lines_cons_of_not_break (h : isLineBreak c = false) :
    lines (c :: cs) = match lines cs with
      | []      => [[c]]
      | l :: ls => (c :: l) :: ls := by
  rw [lines]
  · simp only [h]; rfl
  · rintro _ rfl _
    simp [isLineBreak] at h

theorem lines_append {l : List Char} (h : ∀ c ∈ l, isLineBreak c = false) (hn : l ≠ [])
    (cs : List Char) : lines (l ++ cs) = match lines cs with
      | []      => [l]
      | k :: ls => (l ++ k) :: ls := by
  induction l
  case nil => exact absurd rfl hn
  case cons c l hi =>
    obtain ⟨hc, hs⟩ := List.forall_mem_cons.mp h
    rw [List.cons_append, lines_cons_of_not_break hc]
    cases l
    case nil => rfl
    case cons =>
      rw [hi hs (by simp)]
      cases lines cs <;> rfl

theorem lines_append_of_not_break {l : List Char} (h : ∀ c ∈ l, isLineBreak c = false) :
    lines (l ++ '\n' :: cs) = l :: lines cs := by
  have hb : lines ('\n' :: cs) = [] :: lines cs := rfl
  cases l
  case nil  => exact hb
  case cons =>
    rw [lines_append h (by simp), hb]
    simp

theorem lines_unlines {ls : List (List Char)} (h : ∀ l ∈ ls, ∀ c ∈ l, isLineBreak c = false) :
    lines (unlines ls) = ls := by
  induction ls
  case nil => rfl
  case cons l ls hi =>
    rw [unlines, List.flatMap_cons, List.append_assoc, List.singleton_append,
      lines_append_of_not_break (h l List.mem_cons_self), ← unlines,
      hi fun k m => h k (List.mem_cons_of_mem l m)]

theorem not_break_of_mem_lines {l : List Char} (h : l ∈ lines cs) :
    ∀ c ∈ l, isLineBreak c = false := by
  fun_induction lines cs generalizing l <;> grind

theorem lines_of_not_break {l : List Char} (h : ∀ c ∈ l, isLineBreak c = false) (hn : l ≠ []) :
    lines l = [l] := by
  have hl := lines_append h hn []
  rwa [List.append_nil] at hl

theorem lines_intercalate {ls : List (List Char)} (h : ∀ l ∈ ls, ∀ c ∈ l, isLineBreak c = false)
    (hn : ∀ l ∈ ls, l ≠ []) : lines (['\n'].intercalate ls) = ls := by
  induction ls
  case nil => rfl
  case cons l ls hi =>
    have hl := h l List.mem_cons_self
    cases ls
    case nil => rw [List.intercalate_singleton, lines_of_not_break hl (hn l List.mem_cons_self)]
    case cons k ls =>
      rw [List.intercalate_cons_cons, List.append_assoc, List.singleton_append,
        lines_append_of_not_break hl, hi (fun l m => h l (List.mem_cons_of_mem _ m))
          (fun l m => hn l (List.mem_cons_of_mem _ m))]

theorem filter_eq_head_tail (ls : List (List Char)) :
    ls.filter (· ≠ []) = [ls.headD []].filter (· ≠ []) ++ ls.tail.filter (· ≠ []) := by
  cases ls
  case nil => rfl
  case cons l ls => exact List.filter_append [l] ls

-- The parts between the characters that end lines are the lines, with an empty one inside each
-- pair of a carriage return and a line feed, and with an empty one after a break at the end.
theorem head_tail_lines (cs : List Char) :
    (lines cs).headD [] = (cs.splitOnP isLineBreak).headD [] ∧
      (lines cs).tail.filter (· ≠ []) = (cs.splitOnP isLineBreak).tail.filter (· ≠ []) := by
  fun_induction lines cs
  case case1 => exact ⟨rfl, rfl⟩
  case case2 cs hi =>
    have hb : isLineBreak '\r' ∧ isLineBreak '\n' := ⟨rfl, rfl⟩
    simp only [List.splitOnP_cons_eq_if_modifyHead, hb, if_true, List.tail_cons, List.headD_cons,
      true_and]
    rw [List.filter_cons_of_neg (by simp), filter_eq_head_tail, hi.1, hi.2, ← filter_eq_head_tail]
  case case3 c cs _ hb hi =>
    simp only [List.splitOnP_cons_eq_if_modifyHead, hb, if_true, List.tail_cons, List.headD_cons,
      true_and]
    rw [filter_eq_head_tail, hi.1, hi.2, ← filter_eq_head_tail]
  -- A character that goes to the first line, which may be a new one.
  case' case4 c cs _ hb hl hi      => rw [hl] at hi
  case' case5 c cs _ hb l ls hl hi => rw [hl] at hi
  all_goals
    obtain ⟨p, ps, hp⟩ := List.exists_cons_of_ne_nil (List.splitOnP_ne_nil isLineBreak cs)
    rw [hp] at hi
    simp only [List.splitOnP_cons_eq_if_modifyHead, hb, hp]
    exact ⟨congrArg (c :: ·) hi.1, hi.2⟩

theorem filter_lines (cs : List Char) :
    (lines cs).filter (· ≠ []) = (cs.splitOnP isLineBreak).filter (· ≠ []) := by
  rw [filter_eq_head_tail, (head_tail_lines cs).1, (head_tail_lines cs).2, ← filter_eq_head_tail]

inductive IsBreak : List Char → Prop
  | single {c : Char} : isLineBreak c → IsBreak [c]
  | pair : IsBreak ['\r', '\n']

theorem filter_lines_append {br : List Char} (h : IsBreak br) (cs ds : List Char) :
    (lines (cs ++ br ++ ds)).filter (· ≠ []) =
      (lines cs).filter (· ≠ []) ++ (lines ds).filter (· ≠ []) := by
  simp only [filter_lines]
  cases h
  case single hc =>
    rw [List.append_assoc, List.singleton_append, List.splitOnP_append_cons _ _ hc,
      List.filter_append]
  case pair =>
    rw [List.append_assoc, List.cons_append, List.singleton_append,
      List.splitOnP_append_cons _ _ (by rfl), List.filter_append,
      List.splitOnP_cons_eq_if_modifyHead, if_pos (by rfl), List.filter_cons_of_neg (by simp)]

end QueryPlanner.Text
