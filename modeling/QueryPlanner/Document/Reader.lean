import QueryPlanner.Document.Json

namespace QueryPlanner
namespace Json

-- Every reader returns what it has read and the rest of the text. Numbers are integers.

def skipBlanks : List Char → List Char
  | ' ' :: cs | '\t' :: cs | '\n' :: cs | '\r' :: cs => skipBlanks cs
  | cs => cs

def hexDigit? (c : Char) : Option Nat :=
  if c.isDigit then some (c.toNat - 48)
  else if 'a' ≤ c ∧ c ≤ 'f' then some (c.toNat - 87)
  else if 'A' ≤ c ∧ c ≤ 'F' then some (c.toNat - 55)
  else none

def hexUnit? (a b c d : Char) : Option Nat := do
  return ((← hexDigit? a) * 16 + (← hexDigit? b)) * 256 + (← hexDigit? c) * 16 + (← hexDigit? d)

def shortEscape? : Char → Option Char
  | '"'  => some '"'
  | '\\' => some '\\'
  | '/'  => some '/'
  | 'b'  => some '\x08'
  | 'f'  => some '\x0c'
  | 'n'  => some '\n'
  | 'r'  => some '\r'
  | 't'  => some '\t'
  | _    => none

def readUnits : List Char → Option (List Nat × List Char)
  | []                                     => none
  | '"' :: rest                            => some ([], rest)
  | '\\' :: 'u' :: a :: b :: c :: d :: rest => do
    let unit ← hexUnit? a b c d
    let (units, rest) ← readUnits rest
    return (unit :: units, rest)
  | '\\' :: e :: rest                      => do
    let c ← shortEscape? e
    let (units, rest) ← readUnits rest
    return (c.toNat :: units, rest)
  | c :: rest                              =>
    if c.toNat < 0x20 then
      none
    else do
      let (units, rest) ← readUnits rest
      return (c.toNat :: units, rest)

def joinUnits : List Nat → List Char
  | []               => []
  | u :: v :: units  =>
    if 0xd800 ≤ u ∧ u < 0xdc00 ∧ 0xdc00 ≤ v ∧ v < 0xe000 then
      Char.ofNat (0x10000 + (u - 0xd800) * 0x400 + (v - 0xdc00)) :: joinUnits units
    else
      Char.ofNat u :: joinUnits (v :: units)
  | [u]              => [Char.ofNat u]

def readString (cs : List Char) : Option (String × List Char) := do
  let (units, rest) ← readUnits cs
  return (String.ofList (joinUnits units), rest)

def readNat (cs : List Char) : Option (Nat × List Char) :=
  match cs.takeWhile Char.isDigit with
  | []            => none
  | '0' :: _ :: _ => none
  | digits        =>
    some (digits.foldl (fun n d => 10 * n + (d.toNat - 48)) 0, cs.dropWhile Char.isDigit)

def readInteger : List Char → Option (Int × List Char)
  | '-' :: cs => (readNat cs).map fun (n, rest) => (-(n : Int), rest)
  | cs        => (readNat cs).map fun (n, rest) => ((n : Int), rest)

mutual

-- The fuel bounds the depth and the number of parts. The length of the text is always enough.
def readValue : Nat → List Char → Option (Document × List Char)
  | 0, _         => none
  | fuel + 1, cs =>
    match skipBlanks cs with
    | 'n' :: 'u' :: 'l' :: 'l' :: rest        => some (.null, rest)
    | 't' :: 'r' :: 'u' :: 'e' :: rest        => some (.boolean true, rest)
    | 'f' :: 'a' :: 'l' :: 's' :: 'e' :: rest => some (.boolean false, rest)
    | '"' :: rest => (readString rest).map fun (s, rest) => (.text s, rest)
    | '[' :: rest =>
      match skipBlanks rest with
      | ']' :: rest => some (.list [], rest)
      | rest        => do
        let (d, rest) ← readValue fuel rest
        let (ds, rest) ← readItems fuel rest
        return (.list (d :: ds), rest)
    | '\x7b' :: rest =>
      match skipBlanks rest with
      | '\x7d' :: rest => some (.object [], rest)
      | rest           => do
        let (f, rest) ← readField fuel rest
        let (fs, rest) ← readFields fuel rest
        return (.object (f :: fs), rest)
    | cs => (readInteger cs).map fun (n, rest) => (.integer n, rest)

def readItems : Nat → List Char → Option (List Document × List Char)
  | 0, _         => none
  | fuel + 1, cs =>
    match skipBlanks cs with
    | ']' :: rest => some ([], rest)
    | ',' :: rest => do
      let (d, rest) ← readValue fuel rest
      let (ds, rest) ← readItems fuel rest
      return (d :: ds, rest)
    | _ => none

def readField : Nat → List Char → Option ((String × Document) × List Char)
  | 0, _         => none
  | fuel + 1, cs =>
    match skipBlanks cs with
    | '"' :: rest => do
      let (name, rest) ← readString rest
      match skipBlanks rest with
      | ':' :: rest =>
        let (d, rest) ← readValue fuel rest
        return ((name, d), rest)
      | _ => none
    | _ => none

def readFields : Nat → List Char → Option (List (String × Document) × List Char)
  | 0, _         => none
  | fuel + 1, cs =>
    match skipBlanks cs with
    | '\x7d' :: rest => some ([], rest)
    | ',' :: rest    => do
      let (f, rest) ← readField fuel rest
      let (fs, rest) ← readFields fuel rest
      return (f :: fs, rest)
    | _ => none

end

end Json

namespace Document

def ofJson? (text : String) : Option Document :=
  match Json.readValue (text.length + 1) text.toList with
  | some (d, rest) => if (Json.skipBlanks rest).isEmpty then some d else none
  | none           => none

end Document
end QueryPlanner
