import QueryPlanner.Text.Basic
import QueryPlanner.Text.Numeral
import QueryPlanner.Text.Word

namespace QueryPlanner.Query

-- A piece of a query. A name in back quotes is never taken for a keyword, and neither is a word that
-- begins with a digit. A constant is a number in binary or hexadecimal digits, or a text that is
-- marked as one. A remark is a comment right after a semicolon.
inductive Token
  | word (text : String)
  | name (text : String)
  | number (text : String)
  | string (text : String)
  | constant
  | symbol (text : String)
  | hint (text : String)
  | remark
  deriving DecidableEq, Repr

namespace Token

def isSpecial (c : Char) : Bool :=
  "()[]\x7b\x7d&^:,-.=><!%/\\+;*~?@'\x60\"#|$".toList.contains c

def isWordCharacter (c : Char) : Bool :=
  !Text.isBlank c && !isSpecial c

def doubleSymbols : List (Char × Char) :=
  [('<', '>'), ('<', '='), ('>', '='), ('!', '='), ('=', '='), ('&', '&'), ('|', '|'), (':', '=')]

def escaped? (c : Char) : Option Char :=
  match c with
  | '0'  => some '\x00'
  | 'b'  => some '\x08'
  | 'n'  => some '\n'
  | 'r'  => some '\r'
  | 't'  => some '\t'
  | 'Z'  => some '\x1a'
  | '\\' => some '\\'
  | _    => none

def keepsBackslash (quote c : Char) : Bool :=
  quote = '\x60' || c = '%' || c = '_'

def readQuoted (quote : Char) : List Char → Option (List Char × List Char)
  | []              => none
  | '\\' :: c :: cs =>
    match escaped? c with
    | some e => (readQuoted quote cs).map fun (s, rest) => (e :: s, rest)
    | none   =>
      if keepsBackslash quote c then
        (readQuoted quote (c :: cs)).map fun (s, rest) => ('\\' :: s, rest)
      else
        (readQuoted quote cs).map fun (s, rest) => (c :: s, rest)
  | [c]             => if c = quote then some ([], []) else none
  | c :: d :: cs    =>
    if c = quote then
      if d = quote then
        (readQuoted quote cs).map fun (s, rest) => (quote :: s, rest)
      else
        some ([], d :: cs)
    else
      (readQuoted quote (d :: cs)).map fun (s, rest) => (c :: s, rest)

def readComment : List Char → Option (List Char × List Char)
  | []               => none
  | '*' :: '/' :: cs => some ([], cs)
  | c :: cs          => (readComment cs).map fun (s, rest) => (c :: s, rest)

-- Two dashes begin a comment only if a blank comes after them.
def opensLineComment : List Char → Bool
  | '-' :: '-' :: c :: _ => Text.isBlank c
  | ['-', '-']           => true
  | '#' :: _             => true
  | _                    => false

inductive Exponent
  | absent
  | unsigned
  | signed
  deriving DecidableEq, Repr

def readNumber (hasPoint : Bool) (exponent : Exponent) : List Char → List Char × List Char
  | []      => ([], [])
  | c :: cs =>
    if Text.isDigit c then
      let (s, rest) := readNumber hasPoint exponent cs
      (c :: s, rest)
    else if c = '.' && !hasPoint then
      let (s, rest) := readNumber true exponent cs
      (c :: s, rest)
    else if (c = 'e' || c = 'E') && exponent = .absent then
      let (s, rest) := readNumber hasPoint .unsigned cs
      (c :: s, rest)
    else if (c = '+' || c = '-') && exponent = .unsigned && cs.head?.any Text.isDigit then
      let (s, rest) := readNumber hasPoint .signed cs
      (c :: s, rest)
    else
      ([], c :: cs)

def areDigits (isDigit : Char → Bool) : List Char → Bool
  | []          => false
  | ['_']       => false
  | [c]         => isDigit c
  | '_' :: c :: cs => isDigit c && (cs.isEmpty || areDigits isDigit cs)
  | c :: cs     => isDigit c && areDigits isDigit cs

def isHexDigit (c : Char) : Bool :=
  c.isDigit || 'a' ≤ c && c ≤ 'f' || 'A' ≤ c && c ≤ 'F'

def isBit (c : Char) : Bool :=
  c = '0' || c = '1'

def digitsOf? (c : Char) : Option (Char → Bool) :=
  if c = 'x' || c = 'X' then
    some isHexDigit
  else if c = 'b' || c = 'B' then
    some isBit
  else
    none

def ofNumber (cs : List Char) : Token × List Char :=
  let (digits, rest) := readNumber false .absent cs
  if rest.head?.any Text.isWord then
    (name (String.ofList (digits ++ rest.takeWhile isWordCharacter)),
      rest.dropWhile isWordCharacter)
  else
    (number (String.ofList digits), rest)

def ofDigits (cs : List Char) : Token × List Char :=
  match cs with
  | '0' :: c :: _ =>
    match digitsOf? c with
    | some isDigit =>
      let run := cs.takeWhile isWordCharacter
      let token := if areDigits isDigit (run.drop 2) then constant else name (String.ofList run)
      (token, cs.dropWhile isWordCharacter)
    | none => ofNumber cs
  | _ => ofNumber cs

def ofMarked? (mark quote : Char) (cs : List Char) : Option (Option (Token × List Char)) :=
  if mark = 'n' || mark = 'N' then
    some ((readQuoted quote cs).map fun (_, rest) => (constant, rest))
  else if quote ≠ '\'' then
    none
  else
    (digitsOf? mark).map fun isDigit => do
      let (s, rest) ← readQuoted quote cs
      if s.isEmpty || areDigits isDigit s then some (constant, rest) else none

def ofWord (cs : List Char) : Token × List Char :=
  let text := String.ofList (cs.takeWhile isWordCharacter)
  let rest := cs.dropWhile isWordCharacter
  let second := rest.dropWhile Text.isBlank
  let first := Text.capitals text
  let last := Text.capitals (String.ofList (second.takeWhile isWordCharacter))
  if (first = "GROUP" || first = "ORDER") && second.length < rest.length && last = "BY" then
    (word (first ++ " BY"), second.dropWhile isWordCharacter)
  else
    (word text, rest)

def isQuote (c : Char) : Bool :=
  c = '\'' || c = '"'

def ofSymbol (c : Char) : List Char → Token × List Char
  | []      => (symbol (String.singleton c), [])
  | d :: cs =>
    if c = '<' && d = '=' && cs.head? = some '>' then
      (symbol "<=>", cs.drop 1)
    else if (c, d) ∈ doubleSymbols then
      (symbol (String.ofList [c, d]), cs)
    else
      (symbol (String.singleton c), d :: cs)

def ofComment (before : Option Token) : Option Token :=
  if before = some (symbol ";") then some remark else none

def takesHint : Option Token → Bool
  | some (word w) => Text.capitals w ∈ ["SELECT", "INSERT", "UPDATE", "DELETE"]
  | _             => false

def next (before : Option Token) : List Char → Option (Option Token × List Char)
  | []               => none
  | '/' :: '*' :: cs => do
    let (s, rest) ← readComment cs
    if s.head? = some '+' && takesHint before then
      return (some (hint (String.ofList (s.drop 1))), rest)
    else
      return (ofComment before, rest)
  | c :: cs          =>
    if Text.isBlank c then
      some (none, cs)
    else if opensLineComment (c :: cs) then
      some (ofComment before, [])
    else if c = '\x60' then
      (readQuoted c cs).map fun (s, rest) => (some (name (String.ofList s)), rest)
    else if isQuote c then
      (readQuoted c cs).map fun (s, rest) => (some (string (String.ofList s)), rest)
    else if Text.isDigit c then
      let (t, rest) := ofDigits (c :: cs)
      some (some t, rest)
    else if isSpecial c then
      let (t, rest) := ofSymbol c cs
      some (some t, rest)
    else
      match cs with
      | q :: rest =>
        match if isQuote q then ofMarked? c q rest else none with
        | some marked => marked.map fun (t, rest) => (some t, rest)
        | none        =>
          let (t, rest) := ofWord (c :: cs)
          some (some t, rest)
      | [] => some (some (word (String.singleton c)), [])

-- Every step takes at least one character, so that the length of the text is enough fuel.
def readAll : (fuel : Nat) → (before : Option Token) → List Char → Option (List Token)
  | _, _, []                  => some []
  | 0, _, _ :: _              => none
  | fuel + 1, before, c :: cs =>
    match next before (c :: cs) with
    | none                => none
    | some (none, rest)   => readAll fuel before rest
    | some (some t, rest) => (readAll fuel (some t) rest).map (t :: ·)

def ofText? (text : String) : Option (List Token) :=
  readAll text.length none text.toList

end Token
end QueryPlanner.Query
