import Mathlib.Data.List.Induction
import QueryPlanner.Catalogue
import QueryPlanner.Proofs.Text.Lines
import QueryPlanner.Proofs.Text.Numeral

namespace QueryPlanner
namespace CatalogueLine

variable {cs line : List Char} {ps : List (List Char)} {a : Attribute} {n : Nat}

def IsCount (cs : List Char) : Prop :=
  ∃ n : Nat, Text.Numeral (Text.trim cs) n

def IsAttribute (cs : List Char) : Prop :=
  ∃ name count, cs = name ++ ',' :: count ∧ ',' ∉ name ∧ ',' ∉ count ∧ IsCount count

def Speaks (line : List Char) : Prop :=
  Text.trim line ≠ [] ∧ (Text.trim line).head? ≠ some '#'

def parts (line : List Char) : List (List Char) :=
  (Text.trim line).splitOn ':'

inductive Malformed (line : List Char) : Prop
  | short : (parts line).length < 2 → Malformed line
  | badCount {name count : List Char} {rest : List (List Char)} :
    parts line = name :: count :: rest → ¬ IsCount count → Malformed line
  | badAttribute {name count part : List Char} {rest : List (List Char)} :
    parts line = name :: count :: rest → part ∈ rest → ¬ IsAttribute part → Malformed line

structure Faulty (line : List Char) : Prop where
  speaks    : Speaks line
  malformed : Malformed line

-- What is read is what the grammar says.

theorem readCount_ok : readCount cs = .ok n ↔ Text.Numeral (Text.trim cs) n := by
  rw [← Text.readInteger_iff, readCount]
  split
  · simp_all
  · next k h =>
    rw [h]
    split <;> simp <;> omega

theorem isCount_iff : IsCount cs ↔ ∃ n, readCount cs = .ok n := by
  simp only [IsCount, readCount_ok]

theorem readAttribute_ok : readAttribute cs = .ok a ↔ ∃ name count, cs = name ++ ',' :: count ∧
    ',' ∉ name ∧ ',' ∉ count ∧ ∃ n, readCount count = .ok n ∧
      a = { name := String.ofList (Text.trim name), valueCount := n } := by
  rw [readAttribute, Text.fields_eq_splitOn]
  split
  · next name count h =>
    obtain ⟨rfl, hn, hc⟩ := Text.splitOn_eq_pair.mp h
    constructor
    case mp =>
      intro ha
      cases hr : readCount count <;> rw [hr] at ha
      case error => contradiction
      case ok n => exact ⟨name, count, rfl, hn, hc, n, hr, (Except.ok.inj ha).symm⟩
    case mpr =>
      rintro ⟨name', count', he, hn', hc', n, hr, rfl⟩
      obtain ⟨rfl, rfl⟩ : name = name' ∧ count = count' := by
        simpa [h] using Text.splitOn_eq_pair.mpr ⟨he, hn', hc'⟩
      rw [hr]
      rfl
  · next h =>
    simp only [reduceCtorEq, false_iff]
    rintro ⟨name, count, he, hn, hc, -⟩
    exact h name count (Text.splitOn_eq_pair.mpr ⟨he, hn, hc⟩)

theorem isAttribute_iff : IsAttribute cs ↔ ∃ a, readAttribute cs = .ok a := by
  constructor
  case mp =>
    rintro ⟨name, count, h, hn, hc, hr⟩
    obtain ⟨n, hr⟩ := isCount_iff.mp hr
    exact ⟨_, readAttribute_ok.mpr ⟨name, count, h, hn, hc, n, hr, rfl⟩⟩
  case mpr =>
    rintro ⟨a, h⟩
    obtain ⟨name, count, h, hn, hc, n, hr, -⟩ := readAttribute_ok.mp h
    exact ⟨name, count, h, hn, hc, isCount_iff.mpr ⟨n, hr⟩⟩

instance (cs : List Char) : Decidable (IsCount cs) :=
  match h : readCount cs with
  | .ok n    => isTrue (isCount_iff.mpr ⟨n, h⟩)
  | .error _ => isFalse fun hc => by obtain ⟨n, hn⟩ := isCount_iff.mp hc; simp [h] at hn

instance (cs : List Char) : Decidable (IsAttribute cs) :=
  match h : readAttribute cs with
  | .ok a    => isTrue (isAttribute_iff.mpr ⟨a, h⟩)
  | .error _ => isFalse fun hc => by obtain ⟨a, ha⟩ := isAttribute_iff.mp hc; simp [h] at ha

-- The parts before the first bad one. There are none if the name or the tuple count is bad.
def goodParts : List (List Char) → List (List Char)
  | name :: count :: rest =>
    if IsCount count then name :: count :: rest.takeWhile (IsAttribute ·) else []
  | _ => []

-- A line just before its first bad part.
def cut (line : List Char) : List Char :=
  [':'].intercalate (goodParts (parts line))

theorem isPrefix_goodParts (ps : List (List Char)) : goodParts ps <+: ps := by
  fun_cases goodParts ps
  · simpa using List.takeWhile_prefix _
  · exact List.nil_prefix
  · exact List.nil_prefix

theorem readAttributes_takeWhile (ps : List (List Char)) :
    readAttributes (ps.takeWhile (IsAttribute ·)) = ((readAttributes ps).1, none) := by
  induction ps
  case nil => rfl
  case cons p ps hi =>
    cases h : readAttribute p
    case error =>
      have hp : ¬ IsAttribute p := fun ha => by simp [isAttribute_iff, h] at ha
      simp [readAttributes, h, hp]
    case ok a =>
      have hp : IsAttribute p := isAttribute_iff.mpr ⟨a, h⟩
      simp [readAttributes, h, hp, hi]

theorem readAttributes_fault : (readAttributes ps).2 = none ↔ ∀ p ∈ ps, IsAttribute p := by
  induction ps
  case nil => simp [readAttributes]
  case cons p ps hi =>
    rw [List.forall_mem_cons, isAttribute_iff, ← hi, readAttributes]
    split
    · next h => simp [h]
    · next h => simp [h]

theorem ofParts_eq {name count : List Char} (h : readCount count = .ok n) :
    ofParts (name :: count :: ps) = {
      relation   := some (String.ofList (Text.trim name), n)
      attributes := (readAttributes ps).1
      fault      := (readAttributes ps).2
    } := by
  simp [ofParts, h]

theorem ofParts_goodParts (h : goodParts ps ≠ []) :
    ofParts (goodParts ps) = { ofParts ps with fault := none } := by
  fun_cases goodParts ps
  case case1 name count rest hc =>
    obtain ⟨n, hn⟩ := isCount_iff.mp hc
    rw [ofParts_eq hn, ofParts_eq hn, readAttributes_takeWhile]
  case case2 name count rest hc => simp [goodParts, hc] at h
  case case3 hs => simp [goodParts] at h

theorem ofParts_relation (h : goodParts ps = []) : (ofParts ps).relation = none := by
  fun_cases goodParts ps
  case case1 name count rest hc => simp [goodParts, hc] at h
  case case2 name count rest hc =>
    cases hr : readCount count
    case error => simp [ofParts, hr]
    case ok n => exact absurd (isCount_iff.mpr ⟨n, hr⟩) hc
  case case3 hs => rw [ofParts]; exact hs

theorem malformed_iff : Malformed line ↔ ∃ f, (ofParts (parts line)).fault = some f := by
  constructor
  case mp =>
    rintro (h | ⟨h, hc⟩ | ⟨h, hp, ha⟩)
    case short =>
      refine ⟨.missingCount, ?_⟩
      rw [ofParts]
      rintro name count rest hp
      simp only [hp, List.length_cons] at h
      omega
    case badCount name count rest =>
      cases hr : readCount count
      case error f => exact ⟨f, by simp [h, ofParts, hr]⟩
      case ok n => exact absurd (isCount_iff.mpr ⟨n, hr⟩) hc
    case badAttribute name count part rest =>
      rw [← Option.ne_none_iff_exists', h]
      cases hr : readCount count
      case error f => simp [ofParts, hr]
      case ok n =>
        rw [ofParts_eq hr]
        exact fun hn => ha (readAttributes_fault.mp hn part hp)
  case mpr =>
    rintro ⟨f, h⟩
    match hp : parts line with
    | [] | [_] => exact .short (by simp [hp])
    | name :: count :: rest =>
      cases hr : readCount count
      case error => exact .badCount hp (by simp [isCount_iff, hr])
      case ok n =>
        rw [hp, ofParts_eq hr] at h
        have hn : ¬ ∀ p ∈ rest, IsAttribute p :=
          fun ha => by simp [readAttributes_fault.mpr ha] at h
        simp only [not_forall] at hn
        obtain ⟨p, hm, ha⟩ := hn
        exact .badAttribute hp hm ha

theorem read?_of_speaks (h : Speaks line) : read? line = some (ofParts (parts line)) := by
  obtain ⟨hn, hh⟩ := h
  rw [read?, parts]
  split
  · contradiction
  · next ht => simp [ht] at hh
  · rw [Text.fields_eq_splitOn]

theorem read?_of_not_speaks (h : ¬ Speaks line) : read? line = none := by
  rw [read?]
  split
  · rfl
  · rfl
  · next hn hh =>
    refine absurd ⟨hn, fun hs => ?_⟩ h
    obtain ⟨ds, hd⟩ := List.head?_eq_some_iff.mp hs
    exact hh ds hd

theorem faulty_iff : Faulty line ↔ (read? line).any (·.fault.isSome) := by
  by_cases hs : Speaks line
  case pos =>
    rw [read?_of_speaks hs, Option.any_some, Option.isSome_iff_exists, ← malformed_iff]
    exact ⟨Faulty.malformed, .mk hs⟩
  case neg =>
    rw [read?_of_not_speaks hs]
    exact ⟨fun h => absurd h.speaks hs, nofun⟩

instance (line : List Char) : Decidable (Faulty line) :=
  decidable_of_iff _ faulty_iff.symm

theorem readCount_trim (cs : List Char) : readCount (Text.trim cs) = readCount cs := by
  rw [readCount, Text.trim_trim, readCount]

theorem readAttribute_eq (cs : List Char) :
    readAttribute cs = match (cs.splitOn ',').map Text.trim with
      | [name, count] => do
        return { name := String.ofList name, valueCount := ← readCount count }
      | _ => .error .malformedAttribute := by
  rw [readAttribute, Text.fields_eq_splitOn]
  match cs.splitOn ',' with
  | [] | [_] | _ :: _ :: _ :: _ => rfl
  | [name, count] => simp only [List.map_cons, List.map_nil, readCount_trim]

theorem readAttribute_trim (cs : List Char) : readAttribute (Text.trim cs) = readAttribute cs := by
  rw [readAttribute_eq, Text.map_trim_splitOn_trim rfl, ← readAttribute_eq]

theorem readAttributes_map_trim (ps : List (List Char)) :
    readAttributes (ps.map Text.trim) = readAttributes ps := by
  induction ps
  case nil => rfl
  case cons p ps hi => rw [List.map_cons, readAttributes, readAttributes, readAttribute_trim, hi]

theorem ofParts_map_trim (ps : List (List Char)) : ofParts (ps.map Text.trim) = ofParts ps := by
  match ps with
  | [] | [_] => rfl
  | name :: count :: ps =>
    simp only [List.map_cons, ofParts, readCount_trim, readAttributes_map_trim, Text.trim_trim]

theorem ofParts_parts (line : List Char) : ofParts (parts line) = ofParts (line.splitOn ':') := by
  rw [← ofParts_map_trim, parts, Text.map_trim_splitOn_trim rfl, ofParts_map_trim]

theorem isPrefix_cut (line : List Char) : cut line <+: Text.trim line := by
  have h := Text.isPrefix_intercalate ':' (isPrefix_goodParts (parts line))
  rwa [parts, List.intercalate_splitOn, ← parts] at h

theorem splitOn_cut (h : goodParts (parts line) ≠ []) :
    (cut line).splitOn ':' = goodParts (parts line) :=
  List.splitOn_intercalate ':'
    (fun _ m => Text.not_mem_of_mem_splitOn ((isPrefix_goodParts (parts line)).subset m)) h

theorem cut_ne_nil (h : goodParts (parts line) ≠ []) : cut line ≠ [] := by
  intro hn
  have hs := splitOn_cut h
  have hl : (goodParts (parts line)).length ≠ 1 := by fun_cases goodParts (parts line) <;> simp
  simp [← hs, hn] at hl

theorem speaks_cons {c : Char} (hb : Text.isBlank c = false) (hc : c ≠ '#') : Speaks (c :: cs) := by
  obtain ⟨ds, hd⟩ := Text.trim_cons_of_not_blank hb cs
  exact ⟨by simp [hd], by simpa [hd] using hc⟩

theorem Speaks.cut (hs : Speaks line) (h : goodParts (parts line) ≠ []) : Speaks (cut line) := by
  obtain ⟨c, ds, hc⟩ := List.exists_cons_of_ne_nil (cut_ne_nil h)
  obtain ⟨es, ht⟩ := isPrefix_cut line
  rw [hc, List.cons_append] at ht
  have hh := hs.2
  rw [← ht] at hh
  rw [hc]
  exact speaks_cons (Text.not_blank_of_trim ht.symm) (by simpa using hh)

theorem read?_cut (hs : Speaks line) (h : goodParts (parts line) ≠ []) :
    read? (CatalogueLine.cut line) = some { ofParts (parts line) with fault := none } := by
  rw [read?_of_speaks (hs.cut h), ofParts_parts, splitOn_cut h, ofParts_goodParts h]

theorem cut_eq_nil (h : goodParts (parts line) = []) : CatalogueLine.cut line = [] := by
  rw [CatalogueLine.cut, h]
  rfl

end CatalogueLine

namespace Catalogue

open CatalogueLine (Speaks Faulty)

variable {c : Catalogue} {cs line br : List Char} {before after ls ms : List (List Char)}
variable {n m : Nat}

def enter (c : Catalogue) (line : List Char) : Catalogue :=
  match CatalogueLine.read? line with
  | none   => c
  | some l => c.register l

theorem add_of (k : Nat) (as : List Attribute) (a : Attribute) :
    (Relation.of k as).add a = .of k (as ++ [a]) := by
  ext1
  · rfl
  · simp [Relation.add_attributes]

theorem createAttribute_register {name : String} {k : Nat} {as : List Attribute} (a : Attribute) :
    (c.register { relation := some (name, k), attributes := as }).createAttribute name a =
      .ok (c.register { relation := some (name, k), attributes := as ++ [a] }) := by
  simp only [createAttribute, register, Registry.get?_put_self, Registry.put_put, add_of,
    List.foldl_append, List.foldl_cons, List.foldl_nil]

-- Reading goes on behind a line that is not faulty, and ends with one that is.

theorem readLines_fine (h : ¬ Faulty line) :
    c.readLines n (line :: ls) = (c.enter line).readLines (n + 1) ls := by
  by_cases hs : Speaks line
  case neg => simp only [readLines, enter, CatalogueLine.read?_of_not_speaks hs]
  case pos =>
    have hm := fun f hf => h ⟨hs, CatalogueLine.malformed_iff.mpr ⟨f, hf⟩⟩
    have hf := Option.eq_none_iff_forall_ne_some.mpr hm
    simp only [readLines, enter, CatalogueLine.read?_of_speaks hs, hf]

theorem readLines_faulty (h : Faulty line) (c : Catalogue) (n : Nat) (ls : List (List Char)) :
    ∃ f, c.readLines n (line :: ls) = (c.enter line, .error (.malformedLine n f)) := by
  obtain ⟨f, hf⟩ := CatalogueLine.malformed_iff.mp h.malformed
  exact ⟨f, by simp only [readLines, enter, CatalogueLine.read?_of_speaks h.speaks, hf]⟩

theorem readLines_append (h : ∀ l ∈ ls, ¬ Faulty l) :
    c.readLines n (ls ++ ms) = (ls.foldl enter c).readLines (n + ls.length) ms := by
  induction ls generalizing c n
  case nil => rfl
  case cons l ls hi =>
    rw [List.cons_append, readLines_fine (h l List.mem_cons_self),
      hi fun k hk => h k (List.mem_cons_of_mem l hk), List.foldl_cons, List.length_cons,
      Nat.add_right_comm, Nat.add_assoc]

theorem readLines_of_fine (h : ∀ l ∈ ls, ¬ Faulty l) :
    c.readLines n ls = (ls.foldl enter c, .ok ()) := by
  rw [← List.append_nil ls, readLines_append h, readLines, List.append_nil]

theorem exists_faulty (h : ∃ l ∈ ls, Faulty l) :
    ∃ before line after, ls = before ++ line :: after ∧
      (∀ l ∈ before, ¬ Faulty l) ∧ Faulty line := by
  induction ls
  case nil => simp at h
  case cons l ls hi =>
    by_cases hl : Faulty l
    case pos => exact ⟨[], l, ls, rfl, by simp, hl⟩
    case neg =>
      obtain ⟨before, line, after, rfl, hb, hf⟩ := hi (by simpa [hl] using h)
      exact ⟨l :: before, line, after, rfl, by simpa [hl] using hb, hf⟩

-- What a faulty line leaves is what the line before its first bad part leaves.

theorem not_faulty_cut (h : Speaks line) : ¬ Faulty (CatalogueLine.cut line) := by
  intro hf
  obtain ⟨f, hc⟩ := CatalogueLine.malformed_iff.mp hf.malformed
  by_cases hg : CatalogueLine.goodParts (CatalogueLine.parts line) = []
  case pos => exact hf.speaks.1 (by rw [CatalogueLine.cut_eq_nil hg]; rfl)
  case neg =>
    have hr := CatalogueLine.read?_of_speaks hf.speaks
    rw [CatalogueLine.read?_cut h hg] at hr
    simp [← Option.some.inj hr] at hc

theorem enter_cut (h : Speaks line) : c.enter (CatalogueLine.cut line) = c.enter line := by
  by_cases hg : CatalogueLine.goodParts (CatalogueLine.parts line) = []
  case pos =>
    simp only [enter, CatalogueLine.read?_of_speaks h, register, CatalogueLine.ofParts_relation hg,
      CatalogueLine.cut_eq_nil hg]
    rfl
  case neg =>
    simp only [enter, CatalogueLine.read?_of_speaks h, CatalogueLine.read?_cut h hg, register]

-- The state does not depend on the numbers of the lines, nor on empty lines.
theorem readLines_filter (c : Catalogue) (n m : Nat) (ls : List (List Char)) :
    (c.readLines n (ls.filter (· ≠ []))).1 = (c.readLines m ls).1 := by
  induction ls generalizing c n m
  case nil => rfl
  case cons l ls hi =>
    by_cases hl : l = []
    case pos => rw [hl, List.filter_cons_of_neg (by simp), hi c n (m + 1)]; rfl
    case neg =>
      rw [List.filter_cons_of_pos (by simpa using hl)]
      by_cases hf : Faulty l
      case pos =>
        obtain ⟨_, h⟩ := readLines_faulty hf c n (ls.filter (· ≠ []))
        obtain ⟨_, h'⟩ := readLines_faulty hf c m ls
        rw [h, h']
      case neg => rw [readLines_fine hf, readLines_fine hf, hi]

theorem read_append_break (hb : Text.IsBreak br) (h : ∀ l ∈ Text.lines cs, ¬ Faulty l)
    (ds : List Char) : (c.read (String.ofList (cs ++ br ++ ds))).1 =
      ((c.read (String.ofList cs)).1.read (String.ofList ds)).1 := by
  have hc : ∀ l ∈ (Text.lines cs).filter (· ≠ []), ¬ Faulty l :=
    fun l m => h l (List.mem_of_mem_filter m)
  simp only [read, String.toList_ofList]
  calc (c.readLines 1 (Text.lines (cs ++ br ++ ds))).1
    _ = (c.readLines 1 ((Text.lines cs).filter (· ≠ []) ++ (Text.lines ds).filter (· ≠ []))).1 := by
      rw [← Text.filter_lines_append hb, readLines_filter]
    _ = ((c.readLines 1 ((Text.lines cs).filter (· ≠ []))).1.readLines 1 (Text.lines ds)).1 := by
      rw [readLines_append hc, readLines_of_fine hc, readLines_filter]
    _ = ((c.readLines 1 (Text.lines cs)).1.readLines 1 (Text.lines ds)).1 := by
      rw [readLines_filter]

theorem read_faulty {text : String} (hl : Text.lines text.toList = before ++ line :: after)
    (hb : ∀ l ∈ before, ¬ Faulty l) (hf : Faulty line) : ∃ f, c.read text =
      ((before.foldl enter c).enter line, .error (.malformedLine (before.length + 1) f)) := by
  obtain ⟨f, h⟩ := readLines_faulty hf (before.foldl enter c) (1 + before.length) after
  exact ⟨f, by rw [read, hl, readLines_append hb, h, Nat.add_comm]⟩

theorem read_cut {text : String} (hl : Text.lines text.toList = before ++ line :: after)
    (hb : ∀ l ∈ before, ¬ Faulty l) (hf : Faulty line) :
    c.read (String.ofList (Text.unlines (before ++ [CatalogueLine.cut line]))) =
      ((before.foldl enter c).enter line, .ok ()) := by
  have hn : ∀ l ∈ before ++ [CatalogueLine.cut line], ∀ c ∈ l, Text.isLineBreak c = false := by
    have hk : ∀ l ∈ before ++ line :: after, ∀ c ∈ l, Text.isLineBreak c = false :=
      fun _ m => Text.not_break_of_mem_lines (hl ▸ m)
    rw [List.forall_mem_append] at hk ⊢
    refine ⟨hk.1, List.forall_mem_singleton.mpr fun c m => hk.2 line List.mem_cons_self c ?_⟩
    exact Text.trim_subset line ((CatalogueLine.isPrefix_cut line).subset m)
  have hc : ∀ l ∈ before ++ [CatalogueLine.cut line], ¬ Faulty l :=
    List.forall_mem_append.mpr ⟨hb, List.forall_mem_singleton.mpr (not_faulty_cut hf.speaks)⟩
  rw [read, String.toList_ofList, Text.lines_unlines hn, readLines_of_fine hc, List.foldl_append,
    List.foldl_cons, List.foldl_nil, enter_cut hf.speaks]

theorem read_error {text : String} :
    (∃ e, (c.read text).2 = .error e) ↔ ∃ line ∈ Text.lines text.toList, Faulty line := by
  constructor
  case mp =>
    rintro ⟨e, he⟩
    by_contra hn
    rw [read, readLines_of_fine fun l m hf => hn ⟨l, m, hf⟩] at he
    contradiction
  case mpr =>
    intro h
    obtain ⟨before, line, after, hl, hb, hf⟩ := exists_faulty h
    obtain ⟨f, hr⟩ := read_faulty (c := c) hl hb hf
    exact ⟨_, by rw [hr]⟩

theorem read_grammar (c : Catalogue) (text : String) :
    ((∃ e, (c.read text).2 = .error e) ↔ ∃ line ∈ Text.lines text.toList, Faulty line) ∧
    (∀ before line after, Text.lines text.toList = before ++ line :: after →
      (∀ l ∈ before, ¬ Faulty l) → Faulty line →
        (∃ e, (c.read text).2 = .error e ∧ ∃ fault : CatalogueFault,
          e.message = "Line " ++ toString (before.length + 1) ++ ": " ++ fault.message) ∧
        c.read (String.ofList (Text.unlines (before ++ [CatalogueLine.cut line]))) =
          ((c.read text).1, .ok ())) ∧
    ((c.read text).2 = .ok () → ∀ br, Text.IsBreak br → ∀ more,
      (c.read (text ++ String.ofList br ++ more)).1 = ((c.read text).1.read more).1) := by
  refine ⟨read_error, fun before line after hl hb hf => ?_, fun h br hbr more => ?_⟩
  · obtain ⟨f, hr⟩ := read_faulty (c := c) hl hb hf
    rw [read_cut hl hb hf, hr]
    exact ⟨⟨_, rfl, f, rfl⟩, rfl⟩
  · have hn : ∀ l ∈ Text.lines text.toList, ¬ Faulty l := by
      intro l m hf
      obtain ⟨e, he⟩ := (read_error (c := c)).mpr ⟨l, m, hf⟩
      simp [h] at he
    simpa [String.ofList_append, String.append_assoc] using
      read_append_break (c := c) hbr hn more.toList

theorem read_grammar_halfLine :
    (∃ e, (read {} "A:10:a,5\nB: 7 :b,2:c\nC:1").2 = .error e ∧
      ∃ fault : CatalogueFault, e.message = "Line 2: " ++ fault.message) ∧
    read {} "A:10:a,5\nB: 7 :b,2\n" = ((read {} "A:10:a,5\nB: 7 :b,2:c\nC:1").1, .ok ()) ∧
    (read {} "A:10:a,5\nA:3").1 = ((read {} "A:10:a,5").1.read "A:3").1 := by
  obtain ⟨⟨e, he, f, hf⟩, hc⟩ := (read_grammar {} "A:10:a,5\nB: 7 :b,2:c\nC:1").2.1
    ["A:10:a,5".toList] "B: 7 :b,2:c".toList ["C:1".toList] (by decide +kernel)
    (by decide +kernel) (by decide +kernel)
  refine ⟨⟨e, he, f, hf⟩, ?_, ?_⟩
  · exact hc
  · exact (read_grammar {} "A:10:a,5").2.2 (by decide +kernel) ['\n'] (.single rfl) "A:3"

end Catalogue
end QueryPlanner
