import QueryPlanner.Proofs.Text.Lines
import QueryPlanner.Query.WhereList

namespace QueryPlanner.Text

variable {c : Char}

def blankCodes : List Nat :=
  [0x09, 0x0a, 0x0b, 0x0c, 0x0d, 0x1c, 0x1d, 0x1e, 0x1f, 0x20, 0x85, 0xa0, 0x1680, 0x2000, 0x2001,
    0x2002, 0x2003, 0x2004, 0x2005, 0x2006, 0x2007, 0x2008, 0x2009, 0x200a, 0x2028, 0x2029, 0x202f,
    0x205f, 0x3000]

theorem mem_blankCodes (h : isBlank c) : c.toNat ∈ blankCodes := by
  unfold isBlank at h
  split at h
  case h_10 =>
    simp only [Bool.or_eq_true, Bool.and_eq_true, decide_eq_true_eq] at h
    simp only [blankCodes, List.mem_cons, List.not_mem_nil, or_false]
    omega
  all_goals simp_all [blankCodes]

theorem isWord_of_isBlank (h : isBlank c) : isWord c = false := by
  have hb : ∀ n ∈ blankCodes, isWord (Char.ofNat n) = false := by decide +kernel
  have hc := hb c.toNat (mem_blankCodes h)
  rwa [Char.ofNat_toNat] at hc

theorem isWord_toUpper (c : Char) : isWord c.toUpper = isWord c := by
  by_cases h : 'a'.val ≤ c.val ∧ c.val ≤ 'z'.val
  · have hl : ∀ n ∈ List.range' 97 26, isWord (Char.ofNat n).toUpper = isWord (Char.ofNat n) := by
      decide +kernel
    have hn : 97 ≤ c.toNat ∧ c.toNat ≤ 122 := h
    have hc := hl c.toNat (List.mem_range'_1.mpr (by omega))
    rwa [Char.ofNat_toNat] at hc
  · have hu : c.toUpper = c := dif_neg h
    rw [hu]

end QueryPlanner.Text

namespace QueryPlanner.Query

open Text (isWord isBlank trim isWord_toUpper)

variable {w cs xs ys p q body : List Char} {ps qs : List (List Char)} {c : Char} {b e : Bool}

-- A word is found where it stands alone. What is no character of a word keeps words apart.

theorem dropWord?_sep (hw : ∀ d ∈ w, isWord d) (hc : isWord c = false) (xs ys : List Char) :
    dropWord? w (xs ++ c :: ys) = (dropWord? w xs).map (· ++ c :: ys) := by
  induction w generalizing xs
  case nil => rfl
  case cons d ds hi =>
    cases xs
    case nil =>
      have hd : c.toUpper ≠ d := fun h => by
        have := hw d List.mem_cons_self
        simp [← h, isWord_toUpper, hc] at this
      simp [dropWord?, hd]
    case cons x xs =>
      rw [List.cons_append, dropWord?, dropWord?]
      split
      · exact hi (fun d m => hw d (List.mem_cons_of_mem _ m)) xs
      · rfl

theorem dropWord?_eq_some (h : dropWord? w cs = some xs) :
    ∃ p, p.map Char.toUpper = w ∧ cs = p ++ xs := by
  induction w generalizing cs
  case nil => exact ⟨[], rfl, Option.some.inj h⟩
  case cons d ds hi =>
    cases cs
    case nil => simp [dropWord?] at h
    case cons x cs =>
      rw [dropWord?] at h
      split at h
      case isFalse => contradiction
      case isTrue hd =>
        obtain ⟨p, rfl, rfl⟩ := hi h
        exact ⟨x :: p, by simp [hd], rfl⟩

theorem dropWord?_append (p xs : List Char) : dropWord? (p.map Char.toUpper) (p ++ xs) = some xs := by
  induction p
  case nil          => rfl
  case cons c cs hi => simpa [dropWord?] using hi

theorem startsWithWordCharacter_sep (hc : isWord c = false) (xs ys : List Char) :
    startsWithWordCharacter (xs ++ c :: ys) = startsWithWordCharacter xs := by
  cases xs
  · exact hc
  · rfl

theorem splitAfterWord?_sep (hw : ∀ d ∈ w, isWord d) (hn : w ≠ []) (hc : isWord c = false)
    (b : Bool) (xs ys : List Char) : splitAfterWord? w b (xs ++ c :: ys) =
      match splitAfterWord? w b xs with
      | some (p, q) => some (p, q ++ c :: ys)
      | none        => (splitAfterWord? w false ys).map fun (p, q) => (xs ++ c :: p, q) := by
  induction xs generalizing b
  case nil =>
    have hd := dropWord?_sep hw hc [] ys
    have he : dropWord? w [] = none := by
      cases w
      case nil  => exact absurd rfl hn
      case cons => rfl
    rw [he] at hd
    simp only [List.nil_append, Option.map_none] at hd ⊢
    simp only [splitAfterWord?, hd, hc, ite_self]
  case cons x xs hi =>
    have hd := dropWord?_sep hw hc (x :: xs) ys
    simp only [List.cons_append] at hd
    have ht {rest : List Char} (h : dropWord? w (x :: xs) = some rest) :
        (x :: (xs ++ c :: ys)).take w.length = (x :: xs).take w.length := by
      obtain ⟨p, rfl, he⟩ := dropWord?_eq_some h
      rw [← List.cons_append, List.take_append_of_le_length]
      simp [he]
    simp only [List.cons_append, splitAfterWord?, hi (isWord x), hd]
    cases splitAfterWord? w (isWord x) xs <;> cases b <;> cases hx : dropWord? w (x :: xs) <;>
      simp [startsWithWordCharacter_sep hc, Function.comp_def]
    all_goals
      rw [ht hx]
      split <;> rfl

theorem hasWord_sep (hw : ∀ d ∈ w, isWord d) (hn : w ≠ []) (hc : isWord c = false)
    (xs ys : List Char) : hasWord w (xs ++ c :: ys) = (hasWord w xs || hasWord w ys) := by
  rw [hasWord, hasWord, hasWord, splitAfterWord?_sep hw hn hc]
  cases splitAfterWord? w false xs <;> simp

theorem hasWord_intercalate (hw : ∀ d ∈ w, isWord d) (hn : w ≠ []) (hc : isWord c = false)
    (ps : List (List Char)) : hasWord w ([c].intercalate ps) = ps.any (hasWord w) := by
  induction ps
  case nil => rfl
  case cons p ps hi =>
    cases ps
    case nil => simp
    case cons =>
      rw [List.intercalate_cons_cons, List.append_assoc, List.singleton_append,
        hasWord_sep hw hn hc, hi, ← List.any_cons]

theorem hasWord_trim (hw : ∀ d ∈ w, isWord d) (hn : w ≠ []) (cs : List Char) :
    hasWord w (trim cs) = hasWord w cs := by
  have hl (xs : List Char) {l : List Char} (h : ∀ c ∈ l, isBlank c) :
      hasWord w (l ++ xs) = hasWord w xs := by
    induction l
    case nil => rfl
    case cons c l hi =>
      obtain ⟨hc, hs⟩ := List.forall_mem_cons.mp h
      exact (hasWord_sep hw hn (Text.isWord_of_isBlank hc) [] (l ++ xs)).trans (hi hs)
  obtain ⟨l, r, hb, hr, h⟩ := Text.exists_trim cs
  rw [h, Text.trim_append_blank hr, Text.trim_blank_append hb, Text.trim_trim, List.append_assoc,
    hl _ hb]
  cases r
  case nil => rw [List.append_nil]
  case cons c r =>
    obtain ⟨hc, hs⟩ := List.forall_mem_cons.mp hr
    have hn' := hl [] hs
    rw [List.append_nil] at hn'
    rw [hasWord_sep hw hn (Text.isWord_of_isBlank hc), hn']
    simp [hasWord, splitAfterWord?]

theorem splitAfterWord?_inWord (h : ∀ c ∈ xs, isWord c) : splitAfterWord? w true xs = none := by
  induction xs
  case nil => rfl
  case cons x xs hi =>
    obtain ⟨hx, hs⟩ := List.forall_mem_cons.mp h
    simp [splitAfterWord?, hx, hi hs]

theorem hasWord_of_ne (h : ∀ c ∈ xs, isWord c) (hn : xs.map Char.toUpper ≠ w) :
    hasWord w xs = false := by
  cases xs
  case nil => rfl
  case cons x xs =>
    obtain ⟨hx, hs⟩ := List.forall_mem_cons.mp h
    rw [hasWord, splitAfterWord?, hx, splitAfterWord?_inWord hs]
    cases hd : dropWord? w (x :: xs)
    case none => rfl
    case some rest =>
      obtain ⟨p, rfl, he⟩ := dropWord?_eq_some hd
      cases rest
      case nil         => exact absurd (by rw [he, List.append_nil]) hn
      case cons c rest =>
        have hc : isWord c := h c (he ▸ List.mem_append_right p List.mem_cons_self)
        simp [startsWithWordCharacter, hc]

theorem splitAfterWord?_append {k : List Char} (hn : k ≠ [])
    (hb : startsWithWordCharacter body = false) :
    splitAfterWord? (k.map Char.toUpper) false (k ++ body) = some (k, body) := by
  cases k
  case nil => contradiction
  case cons c k =>
    have hd := dropWord?_append (c :: k) body
    rw [List.map_cons] at hd
    simp only [List.cons_append] at hd
    simp [splitAfterWord?, hd, hb]

theorem splitAtCommas_ne_nil (cs : List Char) : (splitAtCommas cs).1 ≠ [] := by
  cases cs
  case nil => simp [splitAtCommas]
  case cons c cs =>
    simp only [splitAtCommas]
    split
    · simp
    · split <;> simp

def Whole (cs : List Char) : Prop :=
  splitAtCommas cs = ([cs], true)

theorem splitAtCommas_cons (c : Char) (h : splitAtCommas cs = (p :: ps, e)) :
    splitAtCommas (c :: cs) =
      if c = ',' ∧ e then ([] :: p :: ps, e) else ((c :: p) :: ps, e != isQuote c) := by
  rw [splitAtCommas, h]
  simp

theorem splitAtCommas_append (hx : splitAtCommas xs = ([xs], e))
    (hy : splitAtCommas ys = (q :: qs, true)) :
    splitAtCommas (xs ++ ys) = ((xs ++ q) :: qs, e) := by
  induction xs generalizing e
  case nil =>
    obtain rfl : true = e := congrArg Prod.snd hx
    exact hy
  case cons x xs hi =>
    obtain ⟨p, ps, hp⟩ := List.exists_cons_of_ne_nil (splitAtCommas_ne_nil xs)
    have hs : splitAtCommas xs = (p :: ps, (splitAtCommas xs).2) := by rw [← hp]
    rw [splitAtCommas_cons x hs] at hx
    split at hx
    case isTrue => simp at hx
    case isFalse hc =>
      simp only [Prod.mk.injEq, List.cons.injEq, true_and] at hx
      obtain ⟨⟨rfl, rfl⟩, rfl⟩ := hx
      rw [List.cons_append, splitAtCommas_cons x (hi hs), if_neg hc]
      rfl

theorem Whole.append (hx : Whole xs) (hy : Whole ys) : Whole (xs ++ ys) :=
  splitAtCommas_append hx hy

theorem Whole.cons (hc : c ≠ ',' ∧ isQuote c = false) (h : Whole cs) : Whole (c :: cs) := by
  rw [Whole, splitAtCommas_cons c h, if_neg (by simp [hc.1]), hc.2]
  rfl

theorem Whole.of_plain (h : ∀ c ∈ xs, c ≠ ',' ∧ isQuote c = false) : Whole xs := by
  induction xs
  case nil => rfl
  case cons x xs hi =>
    obtain ⟨hx, hs⟩ := List.forall_mem_cons.mp h
    exact (hi hs).cons hx

theorem splitAtCommas_comma (hp : Whole p) (hy : splitAtCommas ys = (qs, true)) :
    splitAtCommas (p ++ ',' :: ys) = (p :: qs, true) := by
  obtain ⟨r, rs, hr⟩ := List.exists_cons_of_ne_nil (splitAtCommas_ne_nil ys)
  rw [hy] at hr
  subst hr
  have h := splitAtCommas_append hp ((splitAtCommas_cons ',' hy).trans (if_pos ⟨rfl, rfl⟩))
  rwa [List.append_nil] at h

theorem splitAtCommas_intercalate (hp : ∀ p ∈ ps, Whole p) (hn : ps ≠ []) :
    splitAtCommas ([','].intercalate ps) = (ps, true) := by
  induction ps
  case nil => contradiction
  case cons p ps hi =>
    obtain ⟨h, hs⟩ := List.forall_mem_cons.mp hp
    cases ps
    case nil      => rw [List.intercalate_singleton]; exact h
    case cons q _ =>
      rw [List.intercalate_cons_cons, List.append_assoc, List.singleton_append]
      exact splitAtCommas_comma h (hi hs nofun)

-- A literal shows no separators if its quotes cancel out, all of them and those after each comma.
structure Even (cs : List Char) : Prop where
  whole  : cs.countP isQuote % 2 = 0
  commas : ∀ xs ys, cs = xs ++ ',' :: ys → ys.countP isQuote % 2 = 0

theorem splitAtCommas_snd (cs : List Char) :
    (splitAtCommas cs).2 = decide (cs.countP isQuote % 2 = 0) := by
  induction cs
  case nil => rfl
  case cons c cs hi =>
    obtain ⟨p, ps, hp⟩ := List.exists_cons_of_ne_nil (splitAtCommas_ne_nil cs)
    have hs : splitAtCommas cs = (p :: ps, decide (cs.countP isQuote % 2 = 0)) := by rw [← hp, ← hi]
    rw [splitAtCommas_cons c hs, List.countP_cons]
    split
    case isTrue hc  => simp [hc.1, isQuote]
    case isFalse hc =>
      cases isQuote c
      · simp
      · simp only [Bool.bne_true, ← decide_not, if_true, decide_eq_decide]
        omega

theorem splitAtCommas_quoted (hq : isQuote c)
    (hc : ∀ xs ys, cs = xs ++ ',' :: ys → ys.countP isQuote % 2 = 0) :
    (splitAtCommas (cs ++ [c])).1 = [cs ++ [c]] := by
  induction cs
  case nil =>
    have hn : c ≠ ',' := by rintro rfl; contradiction
    simp [splitAtCommas, hn]
  case cons x cs hi =>
    have hs := hi fun xs ys he => hc (x :: xs) ys (by rw [he]; rfl)
    have hp : splitAtCommas (cs ++ [c]) = ([cs ++ [c]], (splitAtCommas (cs ++ [c])).2) := by rw [← hs]
    rw [List.cons_append, splitAtCommas_cons x hp, if_neg]
    rintro ⟨rfl, he⟩
    have := hc [] cs rfl
    simp [splitAtCommas_snd, hq] at he
    omega

theorem Even.whole_quoted (h : Even cs) (hq : isQuote c) : Whole (c :: (cs ++ [c])) := by
  have hn : c ≠ ',' := by rintro rfl; contradiction
  have hs := h.whole
  have hp := splitAtCommas_quoted hq h.commas
  have he : splitAtCommas (cs ++ [c]) = ([cs ++ [c]], (splitAtCommas (cs ++ [c])).2) := by rw [← hp]
  rw [Whole, splitAtCommas_cons c he, if_neg (by simp [hn]), splitAtCommas_snd]
  simp [hq]
  omega

theorem intercalateAnd_eq (ps : List (List Char)) :
    intercalateAnd ps = " AND ".toList.intercalate ps := by
  induction ps using intercalateAnd.induct
  case case1 => rfl
  case case2 => simp [intercalateAnd]
  case case3 p ps hn hi =>
    obtain ⟨q, qs, rfl⟩ := List.exists_cons_of_ne_nil hn
    rw [intercalateAnd, hi, List.intercalate_cons_cons]
    exact hn

structure Opens (line before k body : List Char) : Prop where
  line   : line = before ++ (k ++ body)
  word   : k.map Char.toUpper = "WHERE".toList
  first  : hasWord "WHERE".toList before = false
  before : ∀ c ∈ before.getLast?, isWord c = false
  after  : startsWithWordCharacter body = false

variable {text : String} {before k line : List Char}

theorem isWord_where : ∀ c ∈ "WHERE".toList, isWord c :=
  List.all_eq_true.mp (by decide)

theorem isWord_and : ∀ c ∈ "AND".toList, isWord c :=
  List.all_eq_true.mp (by decide)

theorem Opens.split (o : Opens line before k body) :
    splitAfterWord? "WHERE".toList false line = some (before ++ k, body) := by
  have hk : k ≠ [] := by
    rintro rfl
    have := o.word
    contradiction
  have hs := splitAfterWord?_append hk o.after
  rw [o.word] at hs
  rw [o.line]
  obtain rfl | ⟨xs, c, rfl⟩ := List.eq_nil_or_concat before
  · exact hs
  · have hc : isWord c = false := o.before c (by simp)
    have hx : splitAfterWord? "WHERE".toList false xs = none := by
      have := o.first
      rw [List.concat_eq_append, hasWord_sep isWord_where (by decide) hc, Bool.or_eq_false_iff] at this
      simpa [hasWord] using this.1
    rw [List.concat_eq_append, List.append_assoc, List.singleton_append,
      splitAfterWord?_sep isWord_where (by decide) hc, hx, hs]
    simp

theorem Opens.ne_nil (o : Opens line before k body) : line ≠ [] := by
  rintro rfl
  have h := o.split
  contradiction

theorem normalise?_and (o : Opens (joinLines text.toList) before k body)
    (ha : hasWord "AND".toList body) :
    normalise? text = some (String.ofList (joinLines text.toList)) := by
  rw [normalise?]
  split
  case h_1 h => exact absurd h o.ne_nil
  case h_2   => simp only [o.split, ha, if_true]

theorem normalise?_parts (o : Opens (joinLines text.toList) before k ([','].intercalate ps))
    (hn : ps ≠ []) (hp : ∀ p ∈ ps, Whole p) (ha : ∀ p ∈ ps, hasWord "AND".toList p = false) :
    normalise? text = some (String.ofList
      (before ++ (k ++ ' ' :: " AND ".toList.intercalate (ps.map trim)))) := by
  have ha : hasWord "AND".toList ([','].intercalate ps) = false := by
    rw [hasWord_intercalate isWord_and (by decide) (by decide), List.any_eq_false]
    exact fun p m => Bool.eq_false_iff.mp (ha p m)
  rw [normalise?]
  split
  case h_1 h => exact absurd h o.ne_nil
  case h_2   =>
    simp only [o.split, ha, splitAtCommas_intercalate hp hn, intercalateAnd_eq]
    simp

structure IsName (cs : List Char) : Prop where
  nonempty : cs ≠ []
  word     : ∀ c ∈ cs, isWord c
  notAnd   : cs.map Char.toUpper ≠ "AND".toList

inductive Written : List Char → Prop
  | join {xs ys : List Char} (left : IsName xs) (right : IsName ys) : Written (xs ++ '=' :: ys)
  | value {xs cs : List Char} {c : Char} (name : IsName xs) (quote : isQuote c) (even : Even cs)
    (notAnd : hasWord "AND".toList cs = false) :
    Written (xs ++ '=' :: c :: (cs ++ [c]))

theorem plain (h : isWord c ∨ isBlank c) : c ≠ ',' ∧ isQuote c = false := by
  constructor
  · rintro rfl
    revert h
    decide
  · refine Bool.eq_false_iff.mpr fun hq => ?_
    simp only [isQuote, Bool.or_eq_true, decide_eq_true_eq] at hq
    obtain rfl | rfl := hq <;> (revert h; decide)

theorem isWord_of_isQuote (h : isQuote c) : isWord c = false :=
  Bool.eq_false_iff.mpr fun hw => by simp [(plain (.inl hw)).2] at h

theorem IsName.whole (h : IsName xs) : Whole xs :=
  .of_plain fun c m => plain (.inl (h.word c m))

theorem IsName.hasWord_and (h : IsName xs) : hasWord "AND".toList xs = false :=
  hasWord_of_ne h.word h.notAnd

theorem Written.whole (h : Written cs) : Whole cs := by
  have he : Whole ['='] := rfl
  cases h
  case join hx hy       => exact hx.whole.append (he.append hy.whole)
  case value hx hq hc _ => exact hx.whole.append (he.append (hc.whole_quoted hq))

theorem Written.hasWord_and (h : Written cs) : hasWord "AND".toList cs = false := by
  have hs {c : Char} (hc : isWord c = false) := hasWord_sep isWord_and (by decide) hc
  cases h
  case join hx hy => rw [hs (by decide), hx.hasWord_and, hy.hasWord_and]; rfl
  case value xs cs c hx hq hc ha =>
    have hw := isWord_of_isQuote hq
    rw [hs (by decide), hx.hasWord_and, ← List.nil_append (_ :: _), hs hw, hs hw, ha]
    rfl

theorem Whole.of_trim (h : Whole (trim cs)) : Whole cs := by
  obtain ⟨l, r, hl, hr, he⟩ := Text.exists_trim cs
  rw [he]
  exact ((Whole.of_plain fun c m => plain (.inr (hl c m))).append h).append
    (.of_plain fun c m => plain (.inr (hr c m)))

-- A list of predicates is written with ANDs, and the commas in literals stay. The quotes in a literal
-- have to cancel out: both kinds of quotes count alike.
theorem normalise?_predicates (o : Opens (joinLines text.toList) before k ([','].intercalate ps))
    (hn : ps ≠ []) (hp : ∀ p ∈ ps, Written (trim p)) :
    normalise? text = some (String.ofList
      (before ++ (k ++ ' ' :: " AND ".toList.intercalate (ps.map trim)))) := by
  refine normalise?_parts o hn (fun p m => (hp p m).whole.of_trim) fun p m => ?_
  rw [← hasWord_trim isWord_and (by decide)]
  exact (hp p m).hasWord_and

example : normalise? "SELECT *\nFROM R\nWHERE a=\"x,y\" , b='z'" =
    some "SELECT * FROM R WHERE a=\"x,y\" AND b='z'" := by
  decide +kernel

example : normalise? "SELECT *\nFROM R\nWHERE a=b,c=\"it's\"" =
    some "SELECT * FROM R WHERE a=b,c=\"it's\"" := by
  decide +kernel

end QueryPlanner.Query
