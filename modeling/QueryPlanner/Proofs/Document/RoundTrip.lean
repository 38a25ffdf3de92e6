import QueryPlanner.Proofs.Document.Strings
import QueryPlanner.Proofs.Text.Numeral

namespace QueryPlanner.Json

variable {c : Char} {cs bs rest : List Char} {n : Nat}

def blanks : List Char :=
  [' ', '\t', '\n', '\r']

theorem skipBlanks_blank (h : bs ⊆ blanks) (cs : List Char) :
    skipBlanks (bs ++ cs) = skipBlanks cs := by
  induction bs
  case nil => rfl
  case cons b bs hi =>
    obtain ⟨hb, hs⟩ := List.cons_subset.mp h
    simp only [blanks, List.mem_cons, List.not_mem_nil, or_false] at hb
    rcases hb with rfl | rfl | rfl | rfl <;> exact hi hs

theorem skipBlanks_cons (h : c ∉ blanks) (cs : List Char) : skipBlanks (c :: cs) = c :: cs := by
  unfold skipBlanks
  split <;> simp_all [blanks]

def value (n : Nat) (cs : List Char) : Nat :=
  cs.foldl (fun n d => 10 * n + (d.toNat - 48)) n

theorem value_toDigits (n : Nat) : value 0 (Nat.toDigits 10 n) = n := by
  induction n using Nat.strongRecOn
  case ind n hi =>
    rw [Nat.toDigits_eq_if (by decide)]
    split
    · next h => simp [value, Nat.toNat_digitChar_sub_48_of_lt_ten h]
    · next h =>
      have hd := Nat.toNat_digitChar_sub_48_of_lt_ten (Nat.mod_lt n (by decide : 10 > 0))
      have hn := hi (n / 10) (by omega)
      rw [value, List.foldl_append] at *
      simp only [List.foldl_cons, List.foldl_nil, hd, hn]
      omega

theorem isDigit_of_mem_toDigits (h : c ∈ Nat.toDigits 10 n) : c.isDigit := by
  obtain ⟨d, hd, rfl⟩ := Text.exists_digit_of_mem_toDigits h
  clear h
  revert d
  decide

theorem eq_zero_of_toDigits (h : Nat.toDigits 10 n = '0' :: cs) : n = 0 := by
  induction n using Nat.strongRecOn generalizing cs
  case ind n hi =>
    rw [Nat.toDigits_eq_if (by decide)] at h
    split at h
    case isTrue  => exact Nat.digitChar_eq_zero.mp (List.cons.inj h).1
    case isFalse =>
      obtain ⟨d, ds, hd⟩ := List.exists_cons_of_ne_nil (Nat.toDigits_ne_nil (b := 10) (n := n / 10))
      rw [hd, List.cons_append] at h
      obtain ⟨rfl, -⟩ := List.cons.inj h
      have := hi (n / 10) (by omega) hd
      omega

-- A number ends where no digit follows.
def EndsNumber (rest : List Char) : Prop :=
  ∀ c ∈ rest.head?, c.isDigit = false

theorem readNat_toDigits (n : Nat) (h : EndsNumber rest) :
    readNat (Nat.toDigits 10 n ++ rest) = some (n, rest) := by
  have hd : ∀ c ∈ Nat.toDigits 10 n, c.isDigit := fun _ => isDigit_of_mem_toDigits
  have hr : rest.takeWhile Char.isDigit = [] ∧ rest.dropWhile Char.isDigit = rest := by
    cases rest
    case nil       => exact ⟨rfl, rfl⟩
    case cons c cs => simp [h c rfl]
  have hv := value_toDigits n
  rw [readNat, List.takeWhile_append_of_pos hd, List.dropWhile_append_of_pos hd, hr.1, hr.2,
    List.append_nil]
  split
  case h_1 hn => exact absurd hn Nat.toDigits_ne_nil
  case h_2 hn =>
    obtain rfl := eq_zero_of_toDigits hn
    simp at hn
  case h_3    => rw [← value, hv]

theorem toList_toString_neg {k : Int} (h : k < 0) :
    (toString k).toList = '-' :: Nat.toDigits 10 (-k).toNat := by
  rw [Int.toString_eq_repr, Int.repr_eq_if, if_neg (by omega), String.toList_append,
    Nat.toList_repr]
  simp

theorem exists_toDigits (n : Nat) : ∃ c cs, Nat.toDigits 10 n = c :: cs ∧ c.isDigit := by
  obtain ⟨c, cs, h⟩ := List.exists_cons_of_ne_nil (Nat.toDigits_ne_nil (b := 10) (n := n))
  exact ⟨c, cs, h, isDigit_of_mem_toDigits (h ▸ List.mem_cons_self)⟩

theorem readInteger_toString (k : Int) (h : EndsNumber rest) :
    readInteger ((toString k).toList ++ rest) = some (k, rest) := by
  by_cases hk : k < 0
  · rw [toList_toString_neg hk, List.cons_append, readInteger, readNat_toDigits _ h]
    simp only [Option.map_some, Option.some.injEq, Prod.mk.injEq, and_true]
    omega
  · obtain ⟨n, rfl⟩ := Int.eq_ofNat_of_zero_le (Int.not_lt.mp hk)
    rw [Text.toList_toString_natCast, readInteger, readNat_toDigits n h]
    · rfl
    · obtain ⟨c, cs, hn, hc⟩ := exists_toDigits n
      rintro ds hd
      rw [hn, List.cons_append] at hd
      obtain ⟨rfl, -⟩ := List.cons.inj hd
      contradiction

structure Layout.Plain (l : Layout) : Prop where
  comma   : ∃ bs, l.comma.toList = ',' :: bs ∧ bs ⊆ blanks
  newline : ∀ depth, (l.newline depth).toList ⊆ blanks

theorem readValue_blank (h : bs ⊆ blanks) (fuel : Nat) (cs : List Char) :
    readValue fuel (bs ++ cs) = readValue fuel cs := by
  cases fuel
  case zero => rfl
  case succ => rw [readValue, readValue, skipBlanks_blank h]

-- What is written is read again, whatever follows it and however much fuel is left.

variable {l : Layout} {d : Document} {ds : List Document} {f : String × Document}
variable {fs : List (String × Document)}

def Reads (l : Layout) (d : Document) : Prop :=
  ∀ depth fuel rest, (write l depth d).length ≤ fuel → EndsNumber rest →
    readValue fuel ((write l depth d).toList ++ rest) = some (d, rest)

def ReadsItems (l : Layout) (ds : List Document) : Prop :=
  ∀ depth fuel rest, (writeItems l depth ds).length ≤ fuel →
    readItems fuel ((writeItems l depth ds).toList ++ rest) = some (ds, rest)

def ReadsField (l : Layout) (f : String × Document) : Prop :=
  ∀ depth fuel rest, (writeField l depth f).length ≤ fuel → EndsNumber rest →
    readField fuel ((writeField l depth f).toList ++ rest) = some (f, rest)

def ReadsFields (l : Layout) (fs : List (String × Document)) : Prop :=
  ∀ depth fuel rest, (writeFields l depth fs).length ≤ fuel →
    readFields fuel ((writeFields l depth fs).toList ++ rest) = some (fs, rest)

theorem reads_null : Reads l .null := by
  rintro depth (_ | fuel) rest hf -
  · simp [write] at hf
  · simp [write, readValue, skipBlanks]

theorem reads_boolean (b : Bool) : Reads l (.boolean b) := by
  rintro depth (_ | fuel) rest hf -
  · cases b <;> simp [write] at hf
  · cases b <;> simp [write, readValue, skipBlanks]

def Opens (c : Char) : Prop :=
  c ∉ ']' :: blanks

instance (c : Char) : Decidable (Opens c) :=
  inferInstanceAs (Decidable (c ∉ ']' :: blanks))

theorem not_mem_of_isDigit (h : c.isDigit) {cs : List Char} (hd : ∀ d ∈ cs, d.isDigit = false) :
    c ∉ cs :=
  fun m => by simp [hd c m] at h

theorem opens_integer (h : c.isDigit ∨ c = '-') :
    Opens c ∧ c ∉ ['n', 't', 'f', '"', '[', '\x7b'] := by
  obtain h | rfl := h
  · exact ⟨not_mem_of_isDigit h (by simp [blanks]), not_mem_of_isDigit h (by simp)⟩
  · decide

theorem exists_toString (k : Int) :
    ∃ c cs, (toString k).toList = c :: cs ∧ (c.isDigit ∨ c = '-') := by
  by_cases hk : k < 0
  · exact ⟨'-', _, toList_toString_neg hk, .inr rfl⟩
  · obtain ⟨n, rfl⟩ := Int.eq_ofNat_of_zero_le (Int.not_lt.mp hk)
    obtain ⟨c, cs, hn, hc⟩ := exists_toDigits n
    exact ⟨c, cs, (Text.toList_toString_natCast n).trans hn, .inl hc⟩

theorem exists_write (l : Layout) (depth : Nat) (d : Document) :
    ∃ c cs, (write l depth d).toList = c :: cs ∧ Opens c := by
  match d with
  | .integer k =>
    obtain ⟨c, cs, hk, hc⟩ := exists_toString k
    exact ⟨c, cs, by rw [write, hk], (opens_integer hc).1⟩
  | .null                                 => exact ⟨'n', _, by simp [write]; rfl, by decide⟩
  | .boolean true                         => exact ⟨'t', _, by simp [write]; rfl, by decide⟩
  | .boolean false                        => exact ⟨'f', _, by simp [write]; rfl, by decide⟩
  | .text s                               => exact ⟨'"', _, by simp [write, string]; rfl, by decide⟩
  | .list [] | .list (_ :: _)             => exact ⟨'[', _, by simp [write]; rfl, by decide⟩
  | .object [] | .object (_ :: _)         => exact ⟨'\x7b', _, by simp [write]; rfl, by decide⟩

theorem Opens.skipBlanks (h : Opens c) (cs : List Char) : Json.skipBlanks (c :: cs) = c :: cs :=
  skipBlanks_cons (fun m => h (List.mem_cons_of_mem _ m)) cs

theorem reads_integer (k : Int) : Reads l (.integer k) := by
  obtain ⟨c, cs, hk, hc⟩ := exists_toString k
  obtain ⟨ho, hn⟩ := opens_integer hc
  intro depth fuel rest hf hr
  rw [write, ← String.length_toList, hk] at hf
  cases fuel
  case zero => simp at hf
  case succ fuel =>
    have hi := readInteger_toString k hr
    rw [write, hk, List.cons_append, readValue, ho.skipBlanks]
    rw [hk, List.cons_append] at hi
    split <;> simp_all

theorem reads_text (s : String) : Reads l (.text s) := by
  rintro depth (_ | fuel) rest hf -
  · simp [write, string] at hf
  · have h := readString_escape s rest
    simp [write, string, readValue, Json.skipBlanks, h]

theorem reads_list_nil : Reads l (.list []) := by
  rintro depth (_ | fuel) rest hf -
  · simp [write] at hf
  · simp [write, readValue, skipBlanks]

theorem reads_object_nil : Reads l (.object []) := by
  rintro depth (_ | fuel) rest hf -
  · simp [write] at hf
  · simp [write, readValue, skipBlanks]

-- After a value comes a comma, or what closes the list or the object that the value is in.

theorem endsNumber_cons (h : c.isDigit = false) (cs : List Char) : EndsNumber (c :: cs) :=
  fun _ hd => Option.some.inj hd ▸ h

theorem endsNumber_blank (h : bs ⊆ blanks) (hr : EndsNumber rest) : EndsNumber (bs ++ rest) := by
  cases bs
  case nil => exact hr
  case cons b bs =>
    have hb : ∀ b ∈ blanks, b.isDigit = false := by simp [blanks]
    exact endsNumber_cons (hb b (h List.mem_cons_self)) _

theorem endsNumber_items (hl : l.Plain) (depth : Nat) (ds : List Document) (rest : List Char) :
    EndsNumber ((writeItems l depth ds).toList ++ rest) := by
  cases ds
  case nil =>
    rw [writeItems, String.toList_append, List.append_assoc]
    exact endsNumber_blank (hl.newline depth) (endsNumber_cons rfl _)
  case cons d ds =>
    obtain ⟨bs, hc, -⟩ := hl.comma
    simp only [writeItems, String.toList_append, hc, List.cons_append]
    exact endsNumber_cons rfl _

theorem readValue_list (hb : bs ⊆ blanks) (ho : Opens c) (fuel : Nat) :
    readValue (fuel + 1) ('[' :: (bs ++ c :: cs)) = do
      let (d, rest) ← readValue fuel (c :: cs)
      let (ds, rest) ← readItems fuel rest
      return (.list (d :: ds), rest) := by
  rw [readValue, skipBlanks_cons (by decide)]
  simp only [skipBlanks_blank hb, ho.skipBlanks]
  split
  case h_1 hc => exact absurd (List.cons.inj hc).1 fun h => ho (h ▸ List.mem_cons_self)
  case h_2    => rfl

theorem reads_list (hl : l.Plain) (hd : Reads l d) (hds : ReadsItems l ds) :
    Reads l (.list (d :: ds)) := by
  intro depth fuel rest hf hr
  obtain ⟨c, cs, hw, ho⟩ := exists_write l (depth + 1) d
  rw [write, String.length_append, String.length_append, String.length_append] at hf
  cases fuel
  case zero => simp at hf
  case succ fuel =>
    have hb : "[".length = 1 := rfl
    have hv := hd (depth + 1) fuel ((writeItems l depth ds).toList ++ rest) (by omega)
      (endsNumber_items hl depth ds rest)
    have hi := hds depth fuel rest (by omega)
    rw [hw, List.cons_append] at hv
    have ht : (write l depth (.list (d :: ds))).toList ++ rest = '[' ::
        ((l.newline (depth + 1)).toList ++ c :: (cs ++ ((writeItems l depth ds).toList ++ rest))) := by
      simp [write, hw]
    rw [ht, readValue_list (hl.newline (depth + 1)) ho, hv]
    simp [hi]

theorem reads_items_nil (hl : l.Plain) : ReadsItems l [] := by
  rintro depth (_ | fuel) rest hf
  · simp [writeItems] at hf
  · rw [writeItems, String.toList_append, List.append_assoc, readItems,
      skipBlanks_blank (hl.newline depth)]
    rfl

theorem reads_items_cons (hl : l.Plain) (hd : Reads l d) (hds : ReadsItems l ds) :
    ReadsItems l (d :: ds) := by
  intro depth fuel rest hf
  obtain ⟨bs, hc, hb⟩ := hl.comma
  have hn : l.comma.length = bs.length + 1 := by rw [← String.length_toList, hc]; rfl
  rw [writeItems, String.length_append, String.length_append, String.length_append] at hf
  cases fuel
  case zero => omega
  case succ fuel =>
    have hv := hd (depth + 1) fuel ((writeItems l depth ds).toList ++ rest) (by omega)
      (endsNumber_items hl depth ds rest)
    have hi := hds depth fuel rest (by omega)
    have ht : (writeItems l depth (d :: ds)).toList ++ rest = ',' :: (bs ++
        ((l.newline (depth + 1)).toList ++ ((write l (depth + 1) d).toList ++
          ((writeItems l depth ds).toList ++ rest)))) := by
      simp [writeItems, hc]
    rw [ht, readItems, skipBlanks_cons (by decide)]
    simp only [readValue_blank hb, readValue_blank (hl.newline (depth + 1)), hv]
    simp [hi]

theorem reads_field (name : String) (hd : Reads l d) : ReadsField l (name, d) := by
  intro depth fuel rest hf hr
  rw [writeField, String.length_append, String.length_append] at hf
  have hn : ": ".length = 2 := rfl
  cases fuel
  case zero => omega
  case succ fuel =>
    have hv := hd depth fuel rest (by omega) hr
    have ht : (writeField l depth (name, d)).toList ++ rest = '"' :: (name.toList.flatMap escape ++
        '"' :: ':' :: ([' '] ++ ((write l depth d).toList ++ rest))) := by
      simp [writeField, string]
    rw [ht, readField, skipBlanks_cons (by decide)]
    simp only [readString_escape, Option.bind_eq_bind, Option.bind_some,
      skipBlanks_cons (by decide : ':' ∉ blanks), readValue_blank (by decide : [' '] ⊆ blanks), hv]
    rfl

theorem exists_writeField (l : Layout) (depth : Nat) (f : String × Document) :
    ∃ cs, (writeField l depth f).toList = '"' :: cs := by
  obtain ⟨name, d⟩ := f
  exact ⟨_, by simp [writeField, string]; rfl⟩

theorem endsNumber_fields (hl : l.Plain) (depth : Nat) (fs : List (String × Document))
    (rest : List Char) : EndsNumber ((writeFields l depth fs).toList ++ rest) := by
  cases fs
  case nil =>
    rw [writeFields, String.toList_append, List.append_assoc]
    exact endsNumber_blank (hl.newline depth) (endsNumber_cons rfl _)
  case cons f fs =>
    obtain ⟨bs, hc, -⟩ := hl.comma
    simp only [writeFields, String.toList_append, hc, List.cons_append]
    exact endsNumber_cons rfl _

theorem readValue_object (hb : bs ⊆ blanks) (fuel : Nat) :
    readValue (fuel + 1) ('\x7b' :: (bs ++ '"' :: cs)) = do
      let (f, rest) ← readField fuel ('"' :: cs)
      let (fs, rest) ← readFields fuel rest
      return (.object (f :: fs), rest) := by
  rw [readValue, skipBlanks_cons (by decide)]
  simp only [skipBlanks_blank hb, skipBlanks_cons (by decide : '"' ∉ blanks)]
  split
  case h_1 hc => exact absurd (List.cons.inj hc).1 (by decide)
  case h_2    => rfl

theorem reads_object (hl : l.Plain) (hf : ReadsField l f) (hfs : ReadsFields l fs) :
    Reads l (.object (f :: fs)) := by
  intro depth fuel rest hn hr
  obtain ⟨cs, hw⟩ := exists_writeField l (depth + 1) f
  rw [write, String.length_append, String.length_append, String.length_append] at hn
  cases fuel
  case zero => simp at hn
  case succ fuel =>
    have hb : "\x7b".length = 1 := rfl
    have hv := hf (depth + 1) fuel ((writeFields l depth fs).toList ++ rest) (by omega)
      (endsNumber_fields hl depth fs rest)
    have hi := hfs depth fuel rest (by omega)
    rw [hw, List.cons_append] at hv
    have ht : (write l depth (.object (f :: fs))).toList ++ rest = '\x7b' ::
        ((l.newline (depth + 1)).toList ++ '"' :: (cs ++ ((writeFields l depth fs).toList ++ rest))) := by
      simp [write, hw]
    rw [ht, readValue_object (hl.newline (depth + 1)), hv]
    simp [hi]

theorem reads_fields_nil (hl : l.Plain) : ReadsFields l [] := by
  rintro depth (_ | fuel) rest hf
  · simp [writeFields] at hf
  · rw [writeFields, String.toList_append, List.append_assoc, readFields,
      skipBlanks_blank (hl.newline depth)]
    rfl

theorem readField_blank (h : bs ⊆ blanks) (fuel : Nat) (cs : List Char) :
    readField fuel (bs ++ cs) = readField fuel cs := by
  cases fuel
  case zero => rfl
  case succ => rw [readField, readField, skipBlanks_blank h]

theorem reads_fields_cons (hl : l.Plain) (hf : ReadsField l f) (hfs : ReadsFields l fs) :
    ReadsFields l (f :: fs) := by
  intro depth fuel rest hn
  obtain ⟨bs, hc, hb⟩ := hl.comma
  have hk : l.comma.length = bs.length + 1 := by rw [← String.length_toList, hc]; rfl
  rw [writeFields, String.length_append, String.length_append, String.length_append] at hn
  cases fuel
  case zero => omega
  case succ fuel =>
    have hv := hf (depth + 1) fuel ((writeFields l depth fs).toList ++ rest) (by omega)
      (endsNumber_fields hl depth fs rest)
    have hi := hfs depth fuel rest (by omega)
    have ht : (writeFields l depth (f :: fs)).toList ++ rest = ',' :: (bs ++
        ((l.newline (depth + 1)).toList ++ ((writeField l (depth + 1) f).toList ++
          ((writeFields l depth fs).toList ++ rest)))) := by
      simp [writeFields, hc]
    rw [ht, readFields, skipBlanks_cons (by decide)]
    simp only [readField_blank hb, readField_blank (hl.newline (depth + 1)), hv]
    simp [hi]

mutual

theorem reads_write (hl : l.Plain) : (d : Document) → Reads l d
  | .null             => reads_null
  | .boolean b        => reads_boolean b
  | .integer k        => reads_integer k
  | .text s           => reads_text s
  | .list []          => reads_list_nil
  | .list (d :: ds)   => reads_list hl (reads_write hl d) (reads_items hl ds)
  | .object []        => reads_object_nil
  | .object (f :: fs) => reads_object hl (reads_writeField hl f) (reads_fields hl fs)

theorem reads_items (hl : l.Plain) : (ds : List Document) → ReadsItems l ds
  | []      => reads_items_nil hl
  | d :: ds => reads_items_cons hl (reads_write hl d) (reads_items hl ds)

theorem reads_writeField (hl : l.Plain) : (f : String × Document) → ReadsField l f
  | (name, d) => reads_field name (reads_write hl d)

theorem reads_fields (hl : l.Plain) : (fs : List (String × Document)) → ReadsFields l fs
  | []      => reads_fields_nil hl
  | f :: fs => reads_fields_cons hl (reads_writeField hl f) (reads_fields hl fs)

end

theorem ofJson?_write (hl : l.Plain) (depth : Nat) (d : Document) :
    Document.ofJson? (write l depth d) = some d := by
  have h := reads_write hl d depth ((write l depth d).length + 1) [] (Nat.le_succ _) nofun
  rw [List.append_nil] at h
  rw [Document.ofJson?, h]
  rfl

theorem plain_indented : Layout.indented.Plain where
  comma     := ⟨[], rfl, List.nil_subset _⟩
  newline k := by
    have h : (Layout.indented.newline k).toList = '\n' :: List.replicate (2 * k) ' ' := by
      simp [Layout.indented]
    rw [h]
    refine List.cons_subset.mpr ⟨by decide, fun c m => ?_⟩
    obtain rfl := List.eq_of_mem_replicate m
    decide

end QueryPlanner.Json
