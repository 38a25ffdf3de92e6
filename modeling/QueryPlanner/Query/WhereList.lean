import QueryPlanner.Text.Basic
import QueryPlanner.Text.Word

namespace QueryPlanner.Query

def dropWord? : (word : List Char) → List Char → Option (List Char)
  | [], cs          => some cs
  | _ :: _, []      => none
  | w :: ws, c :: cs => if c.toUpper = w then dropWord? ws cs else none

def startsWithWordCharacter : List Char → Bool
  | []     => false
  | c :: _ => Text.isWord c

-- The text up to the end of the first occurrence of a word, and the text after it. The word stands
-- alone: no character of a word is right before or after it.
def splitAfterWord? (word : List Char) (inWord : Bool) : List Char → Option (List Char × List Char)
  | []      => none
  | c :: cs =>
    let next := (splitAfterWord? word (Text.isWord c) cs).map fun (a, b) => (c :: a, b)
    if inWord then
      next
    else
      match dropWord? word (c :: cs) with
      | none      => next
      | some rest =>
        if startsWithWordCharacter rest then next else some ((c :: cs).take word.length, rest)

def hasWord (word : List Char) (cs : List Char) : Bool :=
  (splitAfterWord? word false cs).isSome

def isQuote (c : Char) : Bool :=
  c = '\'' || c = '"'

-- The parts of the text between the commas that an even number of quotes follows, together with the
-- parity of all quotes in the text. Both kinds of quotes count alike.
def splitAtCommas : List Char → List (List Char) × Bool
  | []      => ([[]], true)
  | c :: cs =>
    let (parts, even) := splitAtCommas cs
    if c = ',' && even then
      ([] :: parts, even)
    else
      match parts with
      | []      => ([[c]], even != isQuote c)
      | p :: ps => ((c :: p) :: ps, even != isQuote c)

def intercalateAnd : List (List Char) → List Char
  | []      => []
  | [p]     => p
  | p :: ps => p ++ " AND ".toList ++ intercalateAnd ps

def joinLines (cs : List Char) : List Char :=
  [' '].intercalate ((Text.lines (Text.trim cs)).map Text.trim)

def normalise? (text : String) : Option String :=
  match joinLines text.toList with
  | []  => none
  | sql =>
    match splitAfterWord? "WHERE".toList false sql with
    | none => some (String.ofList sql)
    | some (before, body) =>
      if hasWord "AND".toList body then
        some (String.ofList sql)
      else
        let parts := (splitAtCommas body).1.map Text.trim
        some (String.ofList (before ++ ' ' :: intercalateAnd parts))

end QueryPlanner.Query
