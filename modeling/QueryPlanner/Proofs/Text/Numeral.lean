import QueryPlanner.Text.Numeral

namespace QueryPlanner.Text

variable {cs ds : List Char} {c : Char} {d m n : Nat} {k : Int}

-- Decimal digits of any script, single underscores between them allowed, and what they denote.
inductive Digits : List Char → Nat → Prop
  | digit {c : Char} {d : Nat} : digit? c = some d → Digits [c] d
  | more {cs : List Char} {c : Char} {n d : Nat} :
    Digits cs n → digit? c = some d → Digits (cs ++ [c]) (10 * n + d)
  | spaced {cs : List Char} {c : Char} {n d : Nat} :
    Digits cs n → digit? c = some d → Digits (cs ++ ['_', c]) (10 * n + d)

inductive Numeral : List Char → Int → Prop
  | plain {cs : List Char} {n : Nat} : Digits cs n → Numeral cs n
  | plus {cs : List Char} {n : Nat} : Digits cs n → Numeral ('+' :: cs) n
  | minus {cs : List Char} {n : Nat} : Digits cs n → Numeral ('-' :: cs) (-n)

theorem Digits.readDigits (h : Digits cs m) (hr : readDigits m ds = some n) :
    Digits (cs ++ ds) n := by
  fun_induction Text.readDigits m ds generalizing cs
  case case1 => simp_all
  case case2 m c ds d hd hi => simpa using hi (h.spaced hd) hr
  case case3 => contradiction
  case case4 m c ds _ d hd hi => simpa using hi (h.more hd) hr
  case case5 => contradiction

theorem readDigits_append (h : readDigits m cs = some n) :
    readDigits m (cs ++ ds) = readDigits n ds := by
  fun_induction readDigits m cs
  case case1 => simp_all
  case case2 m c cs d hd hi => simpa [readDigits, hd] using hi h
  case case3 => contradiction
  case case4 m c cs hc d hd hi =>
    have hu : c ≠ '_' := by rintro rfl; simp [digit?] at hd
    rw [List.cons_append, readDigits, hd]
    · exact hi h
    · grind
  case case5 => contradiction

theorem readNat_append (h : readNat cs = some m) : readNat (cs ++ ds) = readDigits m ds := by
  cases cs
  case nil => contradiction
  case cons c cs =>
    cases hd : digit? c
    case none => simp [readNat, hd] at h
    case some d =>
      simp only [readNat, hd] at h
      simpa [readNat, hd] using readDigits_append h

theorem readDigits_digit (h : digit? c = some d) : readDigits m [c] = some (10 * m + d) := by
  rw [readDigits]
  · simp [h, readDigits]
  · simp

theorem readNat_iff : readNat cs = some n ↔ Digits cs n := by
  constructor
  case mp =>
    intro h
    cases cs
    case nil => contradiction
    case cons c cs =>
      cases hd : digit? c
      case none => simp [readNat, hd] at h
      case some d =>
        simp only [readNat, hd] at h
        exact (Digits.digit hd).readDigits h
  case mpr =>
    intro h
    induction h
    case digit h => simp [readNat, h, readDigits]
    case more h hi => rw [readNat_append hi, readDigits_digit h]
    case spaced h hi => simp [readNat_append hi, readDigits, h]

theorem Digits.ne_sign (h : Digits (c :: cs) n) : c ≠ '+' ∧ c ≠ '-' := by
  have hr := readNat_iff.mpr h
  constructor <;> rintro rfl <;> simp [readNat, digit?] at hr

theorem readInteger_plus : readInteger ('+' :: cs) = (readNat cs).map Int.ofNat :=
  rfl

theorem readInteger_minus : readInteger ('-' :: cs) = (readNat cs).map (-Int.ofNat ·) := by
  cases h : readNat cs <;> simp [readInteger, h]

theorem readInteger_plain (hp : ∀ ds, cs ≠ '+' :: ds) (hm : ∀ ds, cs ≠ '-' :: ds) :
    readInteger cs = (readNat cs).map Int.ofNat := by
  rw [readInteger]
  · exact hp
  · exact hm

theorem readInteger_iff : readInteger cs = some k ↔ Numeral cs k := by
  constructor
  case mp =>
    intro h
    by_cases hp : ∃ ds, cs = '+' :: ds
    · obtain ⟨ds, rfl⟩ := hp
      obtain ⟨n, hn, rfl⟩ := Option.map_eq_some_iff.mp (readInteger_plus ▸ h)
      exact .plus (readNat_iff.mp hn)
    by_cases hm : ∃ ds, cs = '-' :: ds
    · obtain ⟨ds, rfl⟩ := hm
      obtain ⟨n, hn, rfl⟩ := Option.map_eq_some_iff.mp (readInteger_minus ▸ h)
      exact .minus (readNat_iff.mp hn)
    rw [readInteger_plain (not_exists.mp hp) (not_exists.mp hm)] at h
    obtain ⟨n, hn, rfl⟩ := Option.map_eq_some_iff.mp h
    exact .plain (readNat_iff.mp hn)
  case mpr =>
    rintro (h | h | h)
    case plain n =>
      have hp : ∀ ds, cs ≠ '+' :: ds := by rintro _ rfl; exact h.ne_sign.1 rfl
      have hm : ∀ ds, cs ≠ '-' :: ds := by rintro _ rfl; exact h.ne_sign.2 rfl
      rw [readInteger_plain hp hm, readNat_iff.mpr h]
      rfl
    case plus => rw [readInteger_plus, readNat_iff.mpr h]; rfl
    case minus => rw [readInteger_minus, readNat_iff.mpr h]; rfl

theorem digit?_digitChar (h : d < 10) : digit? d.digitChar = some d := by
  rw [digit?, if_pos (by simpa using h), Nat.toNat_digitChar_sub_48_of_lt_ten h]

theorem digits_toDigits (n : Nat) : Digits (Nat.toDigits 10 n) n := by
  induction n using Nat.strongRecOn
  case ind n hi =>
    rw [Nat.toDigits_eq_if (by decide)]
    split
    · next h => exact .digit (digit?_digitChar h)
    · next h =>
      have := (hi (n / 10) (by omega)).more (digit?_digitChar (Nat.mod_lt n (by decide)))
      rwa [Nat.div_add_mod] at this

theorem exists_digit_of_mem_toDigits (h : c ∈ Nat.toDigits 10 n) : ∃ d < 10, c = d.digitChar := by
  induction n using Nat.strongRecOn
  case ind n hi =>
    rw [Nat.toDigits_eq_if (by decide)] at h
    split at h
    · next hn => exact ⟨n, hn, List.mem_singleton.mp h⟩
    · next hn =>
      rcases List.mem_append.mp h with h | h
      · exact hi (n / 10) (by omega) h
      · exact ⟨n % 10, Nat.mod_lt n (by decide), List.mem_singleton.mp h⟩

theorem toList_toString_natCast (n : Nat) : (toString (n : Int)).toList = Nat.toDigits 10 n := by
  rw [Int.toString_eq_repr, Int.repr_eq_if, if_pos (by omega), Int.toNat_natCast, Nat.toList_repr]

end QueryPlanner.Text
