import QueryPlanner.Text.Numeral

namespace QueryPlanner

inductive Document
  | null
  | boolean (value : Bool)
  | integer (value : Int)
  | text (value : String)
  | list (items : List Document)
  | object (fields : List (String × Document))
  deriving Repr

namespace Document

def setField (name : String) (value : Document) :
    List (String × Document) → List (String × Document)
  | []      => [(name, value)]
  | f :: fs => if f.1 = name then (name, value) :: fs else f :: setField name value fs

end Document

-- Documents are written in ASCII alone. Other characters are escaped by their UTF-16 units. Integers are
-- written with all their digits, however many these are.

namespace Json

def escapeUnit (n : Nat) : List Char :=
  '\\' :: 'u' :: Text.hex 4 n

def escape (c : Char) : List Char :=
  match c with
  | '"'    => ['\\', '"']
  | '\\'   => ['\\', '\\']
  | '\n'   => ['\\', 'n']
  | '\r'   => ['\\', 'r']
  | '\t'   => ['\\', 't']
  | '\x08' => ['\\', 'b']
  | '\x0c' => ['\\', 'f']
  | c      =>
    let n := c.toNat
    if 0x20 ≤ n ∧ n < 0x7f then [c]
    else if n < 0x10000 then escapeUnit n
    else
      escapeUnit (0xd800 + (n - 0x10000) / 0x400) ++ escapeUnit (0xdc00 + (n - 0x10000) % 0x400)

def string (s : String) : String :=
  String.ofList ('"' :: s.toList.flatMap escape ++ ['"'])

structure Layout where
  comma   : String
  newline : Nat → String

namespace Layout

def compact : Layout where
  comma   := ", "
  newline := fun _ => ""

def indented : Layout where
  comma   := ","
  newline := fun depth => "\n" ++ String.ofList (List.replicate (2 * depth) ' ')

end Layout

mutual

def write (l : Layout) (depth : Nat) : Document → String
  | .null             => "null"
  | .boolean true     => "true"
  | .boolean false    => "false"
  | .integer n        => toString n
  | .text s           => string s
  | .list []          => "[]"
  | .list (d :: ds)   =>
    "[" ++ l.newline (depth + 1) ++ write l (depth + 1) d ++ writeItems l depth ds
  | .object []        => "\x7b\x7d"
  | .object (f :: fs) =>
    "\x7b" ++ l.newline (depth + 1) ++ writeField l (depth + 1) f ++ writeFields l depth fs

def writeItems (l : Layout) (depth : Nat) : List Document → String
  | []      => l.newline depth ++ "]"
  | d :: ds =>
    l.comma ++ l.newline (depth + 1) ++ write l (depth + 1) d ++ writeItems l depth ds

def writeField (l : Layout) (depth : Nat) : String × Document → String
  | (name, d) => string name ++ ": " ++ write l depth d

def writeFields (l : Layout) (depth : Nat) : List (String × Document) → String
  | []      => l.newline depth ++ "\x7d"
  | f :: fs =>
    l.comma ++ l.newline (depth + 1) ++ writeField l (depth + 1) f ++ writeFields l depth fs

end

end Json

namespace Document

def compact (d : Document) : String :=
  Json.write .compact 0 d

def indented (d : Document) : String :=
  Json.write .indented 0 d

end Document
end QueryPlanner
