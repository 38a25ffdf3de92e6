namespace QueryPlanner

def sortByText {α : Type} (text : α → String) (xs : List α) : List α :=
  xs.mergeSort fun a b => !decide (text b < text a)

theorem sortByText_perm {α : Type} (text : α → String) (xs : List α) :
    (sortByText text xs).Perm xs :=
  List.mergeSort_perm xs _

@[simp]
theorem mem_sortByText {α : Type} {text : α → String} {xs : List α} {a : α} :
    a ∈ sortByText text xs ↔ a ∈ xs :=
  (sortByText_perm text xs).mem_iff

namespace Text

def inRanges (code : Nat) : List (Nat × Nat) → Bool
  | []              => false
  | (lo, hi) :: rest => lo ≤ code && (code ≤ hi || inRanges code rest)

def isBlank (c : Char) : Bool :=
  match c.toNat with
  | 0x20 | 0x85 | 0xa0 | 0x1680 | 0x2028 | 0x2029 | 0x202f | 0x205f | 0x3000 => true
  | n => 0x09 ≤ n && n ≤ 0x0d || 0x1c ≤ n && n ≤ 0x1f || 0x2000 ≤ n && n ≤ 0x200a

def trimLeft (cs : List Char) : List Char :=
  cs.dropWhile isBlank

def trimRight (cs : List Char) : List Char :=
  (cs.reverse.dropWhile isBlank).reverse

def trim (cs : List Char) : List Char :=
  trimRight (trimLeft cs)

-- The characters that end a line. A carriage return and a line feed after it end it together.
def isLineBreak (c : Char) : Bool :=
  match c.toNat with
  | 0x85 | 0x2028 | 0x2029 => true
  | n => 0x0a ≤ n && n ≤ 0x0d || 0x1c ≤ n && n ≤ 0x1e

def lines : List Char → List (List Char)
  | []                  => []
  | '\r' :: '\n' :: rest => [] :: lines rest
  | c :: rest           =>
    if isLineBreak c then
      [] :: lines rest
    else
      match lines rest with
      | []      => [[c]]
      | l :: ls => (c :: l) :: ls

def fields (separator : Char) : List Char → List (List Char)
  | []      => [[]]
  | c :: cs =>
    if c = separator then
      [] :: fields separator cs
    else
      match fields separator cs with
      | []      => [[c]]
      | f :: fs => (c :: f) :: fs

-- Above ASCII only these letters have capitals within it. A ligature has one for each of its parts.
def capital (c : Char) : List Char :=
  match c.toNat with
  | 0x131          => ['I']
  | 0x17f          => ['S']
  | 0xdf           => ['S', 'S']
  | 0xfb00         => ['F', 'F']
  | 0xfb01         => ['F', 'I']
  | 0xfb02         => ['F', 'L']
  | 0xfb03         => ['F', 'F', 'I']
  | 0xfb04         => ['F', 'F', 'L']
  | 0xfb05 | 0xfb06 => ['S', 'T']
  | _              => [c.toUpper]

def capitals (word : String) : String :=
  String.ofList (word.toList.flatMap capital)

end Text
end QueryPlanner
