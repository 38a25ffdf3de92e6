import QueryPlanner.Proofs.CatalogueGrammar

namespace QueryPlanner

structure Clean (separators : List Char) (name : String) : Prop where
  trimmed : Text.trim name.toList = name.toList
  whole   : ∀ c ∈ name.toList, c ∉ separators
  onLine  : ∀ c ∈ name.toList, Text.isLineBreak c = false

-- A relation that can be read from the line that is written for it.
structure Writable (name : String) (r : Relation) : Prop where
  named       : Clean [':'] name
  uncommented : name.toList.head? ≠ some '#'
  attributes  : ∀ a ∈ r.attributes, Clean [':', ','] a.name ∧ 0 ≤ a.valueCount

namespace CatalogueLine

variable {cs line : List Char} {c : Char} {ps : List (List Char)} {l : CatalogueLine}
variable {a : Attribute} {name : String} {n : Nat} {r : Relation}

theorem clean_trim {seps : List Char} (hs : ∀ c ∈ cs, c ∉ seps)
    (hl : ∀ c ∈ cs, Text.isLineBreak c = false) : Clean seps (String.ofList (Text.trim cs)) where
  trimmed  := by rw [String.toList_ofList, Text.trim_trim]
  whole c  := by rw [String.toList_ofList]; exact fun m => hs c (Text.trim_subset cs m)
  onLine c := by rw [String.toList_ofList]; exact fun m => hl c (Text.trim_subset cs m)

theorem mem_readAttributes (h : a ∈ (readAttributes ps).1) : ∃ p ∈ ps, readAttribute p = .ok a := by
  induction ps
  case nil => simp [readAttributes] at h
  case cons p ps hi =>
    cases hp : readAttribute p
    case error => simp [readAttributes, hp] at h
    case ok b =>
      simp only [readAttributes, hp, List.mem_cons] at h
      obtain rfl | h := h
      · exact ⟨p, List.mem_cons_self, hp⟩
      · obtain ⟨q, hq, ha⟩ := hi h
        exact ⟨q, List.mem_cons_of_mem p hq, ha⟩

theorem not_mem_of_mem_parts (h : cs ∈ parts line) : ∀ c ∈ cs, c ≠ ':' := by
  rintro c m rfl
  exact Text.not_mem_of_mem_splitOn h m

theorem onLine_of_mem_parts (hl : ∀ c ∈ line, Text.isLineBreak c = false) (h : cs ∈ parts line) :
    ∀ c ∈ cs, Text.isLineBreak c = false :=
  fun c m => hl c (Text.trim_subset line (Text.subset_of_mem_splitOn h m))

theorem readAttribute_clean (hs : ∀ c ∈ cs, c ≠ ':') (hl : ∀ c ∈ cs, Text.isLineBreak c = false)
    (h : readAttribute cs = .ok a) : Clean [':', ','] a.name ∧ 0 ≤ a.valueCount := by
  obtain ⟨name, count, rfl, hn, -, n, -, rfl⟩ := readAttribute_ok.mp h
  refine ⟨clean_trim (fun c m => ?_) (fun c m => hl c (by simp [m])), Int.natCast_nonneg n⟩
  have hc : c ≠ ':' := hs c (by simp [m])
  have hd : c ≠ ',' := by rintro rfl; exact hn m
  simp [hc, hd]

theorem uncommented_of_speaks {part : List Char} {rest : List (List Char)} (h : Speaks line)
    (hp : parts line = part :: rest) (hr : rest ≠ []) :
    (Text.trim part).head? ≠ some '#' := by
  have ht : Text.trim line = part ++ [':'] ++ [':'].intercalate rest := by
    rw [← List.intercalate_cons_of_ne_nil hr, ← hp, parts, List.intercalate_splitOn]
  cases part
  case nil => simp [Text.trim, Text.trimLeft, Text.trimRight]
  case cons c cs =>
    obtain ⟨ds, hd⟩ := Text.trim_cons_of_not_blank (Text.not_blank_of_trim ht) cs
    have hh := h.2
    rw [ht] at hh
    simpa [hd] using hh

theorem writable_of_read? (hl : ∀ c ∈ line, Text.isLineBreak c = false)
    (h : read? line = some l) (hr : l.relation = some (name, n)) :
    Writable name (.of n l.attributes) := by
  have hs : Speaks line := by
    by_contra hs
    simp [read?_of_not_speaks hs] at h
  obtain rfl := Option.some.inj ((read?_of_speaks hs).symm.trans h)
  rcases hp : parts line with _ | ⟨part, _ | ⟨count, rest⟩⟩
  case nil | cons.nil => simp [hp, ofParts] at hr
  case cons.cons =>
    cases hc : readCount count
    case error => simp [hp, ofParts, hc] at hr
    case ok k =>
      rw [hp, ofParts_eq hc] at hr
      rw [ofParts_eq hc]
      obtain ⟨rfl, rfl⟩ : String.ofList (Text.trim part) = name ∧ k = n := by simpa using hr
      have hm : ∀ p ∈ part :: count :: rest, (∀ c ∈ p, c ≠ ':') ∧
          ∀ c ∈ p, Text.isLineBreak c = false :=
        fun p m => ⟨not_mem_of_mem_parts (hp ▸ m), onLine_of_mem_parts hl (hp ▸ m)⟩
      refine ⟨?_, ?_, fun a ha => ?_⟩
      · have hm := hm part List.mem_cons_self
        exact clean_trim (by simpa using hm.1) hm.2
      · rw [String.toList_ofList]
        exact uncommented_of_speaks hs hp (by simp)
      · obtain ⟨b, hb, rfl⟩ := List.mem_map.mp ha
        obtain ⟨p, hpr, hb⟩ := mem_readAttributes hb
        have hm := hm p (by simp [hpr])
        obtain ⟨hn, hv⟩ := readAttribute_clean hm.1 hm.2 hb
        rw [Attribute.cappedAt_name, Attribute.cappedAt_valueCount]
        exact ⟨hn, by omega⟩

-- What is written is read again.

theorem digits_plain (h : c ∈ Nat.toDigits 10 n) : Text.isBlank c = false ∧
    Text.isLineBreak c = false ∧ c ≠ ':' ∧ c ≠ ',' := by
  obtain ⟨d, hd, rfl⟩ := Text.exists_digit_of_mem_toDigits h
  clear h
  revert d
  decide

theorem readCount_toDigits (n : Nat) : readCount (Nat.toDigits 10 n) = .ok n := by
  rw [readCount_ok, Text.trim_of_not_blank fun _ m => (digits_plain m).1]
  exact .plain (Text.digits_toDigits n)

theorem toList_render_attribute (h : a.valueCount = n) :
    a.render.toList = a.name.toList ++ ',' :: Nat.toDigits 10 n := by
  simp only [Attribute.render, String.toList_append, h, Text.toList_toString_natCast]
  simp

theorem readAttribute_render (h : Clean [':', ','] a.name) (hv : 0 ≤ a.valueCount) :
    readAttribute a.render.toList = .ok a := by
  obtain ⟨n, hn⟩ := Int.eq_ofNat_of_zero_le hv
  refine readAttribute_ok.mpr ⟨a.name.toList, Nat.toDigits 10 n, toList_render_attribute hn,
    fun m => h.whole ',' m (by simp), fun m => (digits_plain m).2.2.2 rfl, n,
    readCount_toDigits n, ?_⟩
  rw [h.trimmed, String.ofList_toList, ← hn]

theorem render_attribute_plain (h : Clean [':', ','] a.name) (hv : 0 ≤ a.valueCount) :
    ∀ c ∈ a.render.toList, c ≠ ':' ∧ Text.isLineBreak c = false := by
  obtain ⟨n, hn⟩ := Int.eq_ofNat_of_zero_le hv
  intro c hc
  rw [toList_render_attribute hn, List.mem_append, List.mem_cons] at hc
  rcases hc with hc | rfl | hc
  · exact ⟨by rintro rfl; exact h.whole ':' hc (by simp), h.onLine c hc⟩
  · decide
  · exact ⟨(digits_plain hc).2.2.1, (digits_plain hc).2.1⟩

theorem readAttributes_render {as : List Attribute}
    (h : ∀ a ∈ as, Clean [':', ','] a.name ∧ 0 ≤ a.valueCount) :
    readAttributes (as.map (·.render.toList)) = (as, none) := by
  induction as
  case nil => rfl
  case cons a as hi =>
    have ha := h a List.mem_cons_self
    rw [List.map_cons, readAttributes, readAttribute_render ha.1 ha.2,
      hi fun b m => h b (List.mem_cons_of_mem a m)]

def written (name : String) (r : Relation) : List (List Char) :=
  name.toList :: Nat.toDigits 10 r.tupleCount :: r.attributes.map (·.render.toList)

theorem toList_render (name : String) (r : Relation) :
    (NamedRelation.render ⟨name, r⟩).toList = [':'].intercalate (written name r) := by
  have hc : ":".toList = [':'] := rfl
  have hn : (toString r.tupleCount).toList = Nat.toDigits 10 r.tupleCount := Nat.toList_repr
  simp only [NamedRelation.render, Relation.render, String.toList_append, String.toList_intercalate,
    written, List.map_cons, List.map_map, List.intercalate_cons_cons, hc, hn]
  rfl

theorem written_plain (h : Writable name r) :
    ∀ p ∈ written name r, ∀ c ∈ p, c ≠ ':' ∧ Text.isLineBreak c = false := by
  simp only [written, List.forall_mem_cons, List.forall_mem_map]
  refine ⟨fun c m => ⟨?_, h.named.onLine c m⟩,
    fun c m => ⟨(digits_plain m).2.2.1, (digits_plain m).2.1⟩,
    fun a m => render_attribute_plain (h.attributes a m).1 (h.attributes a m).2⟩
  rintro rfl
  exact h.named.whole ':' m (by simp)

theorem speaks_render (h : Writable name r) : Speaks (NamedRelation.render ⟨name, r⟩).toList := by
  have hu := h.uncommented
  have ht := h.named.trimmed
  rw [toList_render, written, List.intercalate_cons_cons]
  cases hn : name.toList
  case nil => exact speaks_cons rfl (by decide)
  case cons c cs =>
    rw [hn] at ht hu
    exact speaks_cons (Text.not_blank_of_trim ht) (by simpa using hu)

theorem read?_render (h : Writable name r) :
    read? (NamedRelation.render ⟨name, r⟩).toList =
      some { relation := some (name, r.tupleCount), attributes := r.attributes } := by
  have hs : (NamedRelation.render ⟨name, r⟩).toList.splitOn ':' = written name r := by
    rw [toList_render, List.splitOn_intercalate]
    · exact fun p m hc => (written_plain h p m ':' hc).1 rfl
    · simp [written]
  rw [read?_of_speaks (speaks_render h), ofParts_parts, hs, written,
    ofParts_eq (readCount_toDigits _), readAttributes_render h.attributes, h.named.trimmed,
    String.ofList_toList]

theorem render_onLine (h : Writable name r) :
    ∀ c ∈ (NamedRelation.render ⟨name, r⟩).toList, Text.isLineBreak c = false := by
  intro c hc
  rw [toList_render] at hc
  obtain rfl | ⟨p, hp, hc⟩ := Text.mem_intercalate hc
  · rfl
  · exact (written_plain h p hp c hc).2

theorem render_ne_nil (h : Writable name r) : (NamedRelation.render ⟨name, r⟩).toList ≠ [] :=
  fun hn => (speaks_render h).1 (by rw [hn]; rfl)

end CatalogueLine

namespace Catalogue

variable {c : Catalogue} {line : List Char} {ls : List (List Char)} {es : List (String × Relation)}

def Writable (c : Catalogue) : Prop :=
  ∀ e ∈ c.relations.entries, QueryPlanner.Writable e.1 e.2

theorem Writable.enter (h : c.Writable) (hl : ∀ c ∈ line, Text.isLineBreak c = false) :
    (c.enter line).Writable := by
  rw [Catalogue.enter]
  cases hr : CatalogueLine.read? line
  case none => exact h
  case some l =>
    cases hn : l.relation
    case none => simpa [register, hn] using h
    case some p =>
      intro e he
      simp only [register, hn] at he
      obtain rfl | he := Registry.mem_entries_put he
      · exact CatalogueLine.writable_of_read? hl hr hn
      · exact h e he

theorem writable_foldl (h : ∀ l ∈ ls, ∀ c ∈ l, Text.isLineBreak c = false) (hc : c.Writable) :
    (ls.foldl Catalogue.enter c).Writable := by
  induction ls generalizing c
  case nil => exact hc
  case cons l ls hi =>
    exact hi (fun k m => h k (List.mem_cons_of_mem l m)) (hc.enter (h l List.mem_cons_self))

theorem enter_render {name : String} {r : Relation} (h : QueryPlanner.Writable name r) :
    (c.enter (NamedRelation.render ⟨name, r⟩).toList).relations = c.relations.put name r := by
  simp only [Catalogue.enter, CatalogueLine.read?_render h, register, Relation.of_self]

theorem foldl_enter_render (h : ∀ e ∈ es, QueryPlanner.Writable e.1 e.2) :
    ((es.map fun e => (NamedRelation.render ⟨e.1, e.2⟩).toList).foldl Catalogue.enter c).relations =
      es.foldl (fun r e => r.put e.1 e.2) c.relations := by
  induction es generalizing c
  case nil => rfl
  case cons e es hi =>
    rw [List.map_cons, List.foldl_cons, hi fun d m => h d (List.mem_cons_of_mem e m),
      enter_render (h e List.mem_cons_self), List.foldl_cons]

theorem lines_render (h : c.Writable) : Text.lines c.render.toList =
    c.relations.entries.map fun e => (NamedRelation.render ⟨e.1, e.2⟩).toList := by
  have hb : "\n".toList = ['\n'] := rfl
  rw [render, String.toList_intercalate, namedRelations, List.map_map, List.map_map, hb]
  refine Text.lines_intercalate ?_ ?_
  · exact List.forall_mem_map.mpr fun e m => CatalogueLine.render_onLine (h e m)
  · exact List.forall_mem_map.mpr fun e m => CatalogueLine.render_ne_nil (h e m)

theorem fine_render {name : String} {r : Relation} (h : QueryPlanner.Writable name r) :
    ¬ CatalogueLine.Faulty (NamedRelation.render ⟨name, r⟩).toList := by
  simp [CatalogueLine.faulty_iff, CatalogueLine.read?_render h]

theorem ofText_of_read {text : String} (h : (read {} text).2 = .ok ()) :
    ofText text = .ok (read {} text).1 := by
  rw [ofText]
  split
  · next hr => rw [hr]
  · next hr => simp [hr] at h

theorem Writable.reread (h : c.Writable) :
    ∃ d, ofText c.render = .ok d ∧ d.relations = c.relations := by
  have hf : ∀ l ∈ Text.lines c.render.toList, ¬ CatalogueLine.Faulty l := by
    rw [lines_render h, List.forall_mem_map]
    exact fun e m => fine_render (h e m)
  have hr : read {} c.render = ((Text.lines c.render.toList).foldl Catalogue.enter {}, .ok ()) :=
    readLines_of_fine hf
  refine ⟨_, ofText_of_read (by rw [hr]), ?_⟩
  rw [hr, lines_render h, foldl_enter_render h]
  exact c.relations.foldl_put_entries

theorem render_congr {d : Catalogue} (h : d.relations = c.relations) : d.render = c.render := by
  simp only [render, namedRelations, h]

theorem ofText_ok {text : String} (h : ofText text = .ok c) :
    c = (Text.lines text.toList).foldl Catalogue.enter {} := by
  have hr : read {} text = (c, .ok ()) := by
    rw [ofText] at h
    split at h
    · next hr => rw [hr, Except.ok.inj h]
    · contradiction
  have hf : ∀ l ∈ Text.lines text.toList, ¬ CatalogueLine.Faulty l := by
    intro l m hl
    obtain ⟨e, he⟩ := (read_error (c := {})).mpr ⟨l, m, hl⟩
    rw [hr] at he
    contradiction
  rw [read, readLines_of_fine hf] at hr
  exact (Prod.mk.inj hr).1.symm

theorem ofText_render {text : String} (h : ofText text = .ok c) :
    ∃ d, ofText c.render = .ok d ∧ d.relations = c.relations ∧ d.render = c.render := by
  have hw : c.Writable := by
    rw [ofText_ok h]
    exact writable_foldl (fun _ => Text.not_break_of_mem_lines) nofun
  obtain ⟨d, hd, hr⟩ := hw.reread
  exact ⟨d, hd, hr, render_congr hr⟩

-- A comment, a relation that is registered twice, and numbers of several forms.
def redefinition : String :=
  " # A\nA:1:x,9\nB, b :+1_0: x , ٣:y,12\r\nA:2:x,9\n:0"

theorem ofText_render_redefinition : ∃ c, ofText redefinition = .ok c ∧
    c.render = "A:2:x,2\nB, b:10:x,3:y,10\n:0" ∧
      ∃ d, ofText c.render = .ok d ∧ d.relations = c.relations ∧ d.render = c.render := by
  have h : ofText redefinition = .ok (read {} redefinition).1 := ofText_of_read (by decide +kernel)
  exact ⟨_, h, by decide +kernel, ofText_render h⟩

end Catalogue
end QueryPlanner
