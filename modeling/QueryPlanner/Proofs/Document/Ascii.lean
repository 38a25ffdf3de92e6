import QueryPlanner.Proofs.Document.RoundTrip

namespace QueryPlanner.Json

variable {l : Layout} {c : Char} {n : Nat}

-- What is written is in ASCII, whatever names and texts are in it.

theorem ascii_hex {width : Nat} (h : c ∈ Text.hex width n) : c.toNat < 128 := by
  induction width generalizing n
  case zero => simp [Text.hex] at h
  case succ width hi =>
    rw [Text.hex, List.mem_append, List.mem_singleton] at h
    obtain h | rfl := h
    · exact hi h
    · have hd : ∀ d < 16, d.digitChar.toNat < 128 := by decide
      exact hd (n % 16) (Nat.mod_lt n (by decide))

theorem ascii_escape {d : Char} (h : d ∈ escape c) : d.toNat < 128 := by
  have hu {n : Nat} (h : d ∈ escapeUnit n) : d.toNat < 128 := by
    simp only [escapeUnit, List.mem_cons] at h
    obtain rfl | rfl | h := h
    · decide
    · decide
    · exact ascii_hex h
  unfold escape at h
  split at h
  case h_8 _ =>
    dsimp only at h
    split at h
    case isTrue hc =>
      obtain rfl := List.mem_singleton.mp h
      omega
    split at h
    case isTrue  => exact hu h
    case isFalse => exact (List.mem_append.mp h).elim hu hu
  all_goals
    simp only [List.mem_cons, List.not_mem_nil, or_false] at h
    obtain rfl | rfl := h <;> decide

def Ascii (s : String) : Prop :=
  ∀ c ∈ s.toList, c.toNat < 128

instance (s : String) : Decidable (Ascii s) :=
  decidable_of_iff (s.toList.all (·.toNat < 128)) (by simp [Ascii])

theorem Ascii.append {s t : String} (hs : Ascii s) (ht : Ascii t) : Ascii (s ++ t) := by
  intro c m
  rw [String.toList_append] at m
  exact (List.mem_append.mp m).elim (hs c) (ht c)

theorem ascii_string (s : String) : Ascii (string s) := by
  intro c m
  rw [string, String.toList_ofList, List.mem_append, List.mem_cons,
    List.mem_singleton] at m
  obtain (rfl | m) | rfl := m
  · decide
  · obtain ⟨d, -, h⟩ := List.mem_flatMap.mp m
    exact ascii_escape h
  · decide

theorem ascii_toString (k : Int) : Ascii (toString k) := by
  have hd {c : Char} {n : Nat} (h : c ∈ Nat.toDigits 10 n) : c.toNat < 128 := by
    obtain ⟨d, hd, rfl⟩ := Text.exists_digit_of_mem_toDigits h
    have : ∀ d < 10, d.digitChar.toNat < 128 := by decide
    exact this d hd
  intro c m
  by_cases hk : k < 0
  · rw [toList_toString_neg hk, List.mem_cons] at m
    obtain rfl | m := m
    · decide
    · exact hd m
  · obtain ⟨n, rfl⟩ := Int.eq_ofNat_of_zero_le (Int.not_lt.mp hk)
    rw [Text.toList_toString_natCast] at m
    exact hd m

theorem Layout.Plain.ascii_newline (hl : l.Plain) (depth : Nat) : Ascii (l.newline depth) := by
  have hb : ∀ c ∈ blanks, c.toNat < 128 := by simp [blanks]
  exact fun c m => hb c (hl.newline depth m)

theorem Layout.Plain.ascii_comma (hl : l.Plain) : Ascii l.comma := by
  have hb : ∀ c ∈ ',' :: blanks, c.toNat < 128 := by simp [blanks]
  obtain ⟨bs, h, hs⟩ := hl.comma
  rw [Ascii, h]
  exact fun c m => hb c (List.cons_subset_cons ',' hs m)

mutual

theorem ascii_write (hl : l.Plain) (depth : Nat) : (d : Document) → Ascii (write l depth d)
  | .null             => by rw [write]; decide
  | .boolean true     => by rw [write]; decide
  | .boolean false    => by rw [write]; decide
  | .integer k        => by rw [write]; exact ascii_toString k
  | .text s           => by rw [write]; exact ascii_string s
  | .list []          => by rw [write]; decide
  | .list (d :: ds)   => by
    rw [write]
    exact .append (.append (.append (by decide) (hl.ascii_newline _)) (ascii_write hl _ d))
      (ascii_writeItems hl depth ds)
  | .object []        => by rw [write]; decide
  | .object (f :: fs) => by
    rw [write]
    exact .append (.append (.append (by decide) (hl.ascii_newline _)) (ascii_writeField hl _ f))
      (ascii_writeFields hl depth fs)

theorem ascii_writeItems (hl : l.Plain) (depth : Nat) :
    (ds : List Document) → Ascii (writeItems l depth ds)
  | []      => by rw [writeItems]; exact .append (hl.ascii_newline depth) (by decide)
  | d :: ds => by
    rw [writeItems]
    exact .append (.append (.append hl.ascii_comma (hl.ascii_newline _)) (ascii_write hl _ d))
      (ascii_writeItems hl depth ds)

theorem ascii_writeField (hl : l.Plain) (depth : Nat) :
    (f : String × Document) → Ascii (writeField l depth f)
  | (name, d) => by
    rw [writeField]
    exact .append (.append (ascii_string name) (by decide)) (ascii_write hl depth d)

theorem ascii_writeFields (hl : l.Plain) (depth : Nat) :
    (fs : List (String × Document)) → Ascii (writeFields l depth fs)
  | []      => by rw [writeFields]; exact .append (hl.ascii_newline depth) (by decide)
  | f :: fs => by
    rw [writeFields]
    exact .append (.append (.append hl.ascii_comma (hl.ascii_newline _)) (ascii_writeField hl _ f))
      (ascii_writeFields hl depth fs)

end

end QueryPlanner.Json
