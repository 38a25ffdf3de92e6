import QueryPlanner.Document.Json
import QueryPlanner.Document.Reader

namespace QueryPlanner.Json

variable {c : Char} {n d : Nat} {rest : List Char}

def units (c : Char) : List Nat :=
  if c.toNat < 0x10000 then
    [c.toNat]
  else
    [0xd800 + (c.toNat - 0x10000) / 0x400, 0xdc00 + (c.toNat - 0x10000) % 0x400]

theorem hexDigit?_digitChar (h : d < 16) : hexDigit? d.digitChar = some d := by
  revert d
  decide

theorem hex_eq (n : Nat) : Text.hex 4 n =
    [(n / 4096 % 16).digitChar, (n / 256 % 16).digitChar, (n / 16 % 16).digitChar,
      (n % 16).digitChar] := by
  simp [Text.hex, Nat.div_div_eq_div_mul]

theorem readUnits_escapeUnit (h : n < 0x10000) (rest : List Char) :
    readUnits (escapeUnit n ++ rest) = (readUnits rest).map fun (us, r) => (n :: us, r) := by
  have hd (k : Nat) : hexDigit? (k % 16).digitChar = some (k % 16) :=
    hexDigit?_digitChar (Nat.mod_lt k (by decide))
  have hn : (n / 4096 % 16 * 16 + n / 256 % 16) * 256 + n / 16 % 16 * 16 + n % 16 = n := by omega
  have hu : hexUnit? (n / 4096 % 16).digitChar (n / 256 % 16).digitChar (n / 16 % 16).digitChar
      (n % 16).digitChar = some n := by
    simp only [hexUnit?, hd]
    exact congrArg some hn
  rw [escapeUnit, hex_eq]
  simp only [List.cons_append, List.nil_append, readUnits, hu]
  cases readUnits rest <;> rfl

theorem readUnits_plain (hq : c ≠ '"') (hb : c ≠ '\\') (hc : 0x20 ≤ c.toNat) (rest : List Char) :
    readUnits (c :: rest) = (readUnits rest).map fun (us, r) => (c.toNat :: us, r) := by
  rw [readUnits]
  · rw [if_neg (Nat.not_lt.mpr hc)]
    cases readUnits rest <;> rfl
  all_goals simp_all

theorem readUnits_short {e : Char} (h : shortEscape? e = some c) (rest : List Char) :
    readUnits ('\\' :: e :: rest) = (readUnits rest).map fun (us, r) => (c.toNat :: us, r) := by
  rw [readUnits]
  · rw [h]
    cases readUnits rest <;> rfl
  · rintro _ _ _ _ _ rfl
    contradiction

theorem toNat_valid (c : Char) : c.toNat < 0xd800 ∨ 0xdfff < c.toNat ∧ c.toNat < 0x110000 :=
  c.valid

theorem readUnits_escape (c : Char) (rest : List Char) :
    readUnits (escape c ++ rest) = (readUnits rest).map fun (us, r) => (units c ++ us, r) := by
  unfold escape
  split
  case h_8 _ hq hb _ _ _ _ _ =>
    have hc := toNat_valid c
    dsimp only
    unfold units
    split
    case isTrue h =>
      rw [if_pos (by omega)]
      exact readUnits_plain hq hb h.1 rest
    split
    case isTrue h  => exact readUnits_escapeUnit h rest
    case isFalse h =>
      rw [List.append_assoc, readUnits_escapeUnit (by omega), readUnits_escapeUnit (by omega)]
      cases readUnits rest <;> rfl
  all_goals exact readUnits_short rfl rest

-- The units of a character are read as that character, whatever comes after them.
theorem joinUnits_units (c : Char) (us : List Nat) :
    joinUnits (units c ++ us) = c :: joinUnits us := by
  have hc := toNat_valid c
  unfold units
  split
  case isTrue h =>
    cases us
    case nil       => simp [joinUnits]
    case cons u us =>
      rw [List.singleton_append, joinUnits, if_neg (by omega), Char.ofNat_toNat]
  case isFalse h =>
    have hn : 0x10000 + (0xd800 + (c.toNat - 0x10000) / 0x400 - 0xd800) * 0x400 +
        (0xdc00 + (c.toNat - 0x10000) % 0x400 - 0xdc00) = c.toNat := by omega
    rw [List.cons_append, List.singleton_append, joinUnits, if_pos (by omega), hn, Char.ofNat_toNat]

theorem joinUnits_flatMap (cs : List Char) : joinUnits (cs.flatMap units) = cs := by
  induction cs
  case nil          => rfl
  case cons c cs hi => rw [List.flatMap_cons, joinUnits_units, hi]

theorem readUnits_flatMap (cs rest : List Char) :
    readUnits (cs.flatMap escape ++ '"' :: rest) = some (cs.flatMap units, rest) := by
  induction cs
  case nil          => rfl
  case cons c cs hi => rw [List.flatMap_cons, List.append_assoc, readUnits_escape, hi]; rfl

theorem readString_escape (s : String) (rest : List Char) :
    readString (s.toList.flatMap escape ++ '"' :: rest) = some (s, rest) := by
  rw [readString, readUnits_flatMap]
  simp [joinUnits_flatMap]

end QueryPlanner.Json
