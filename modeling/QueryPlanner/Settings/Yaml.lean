import QueryPlanner.Text.Numeral

namespace QueryPlanner

inductive Scalar
  | null
  | boolean (value : Bool)
  | integer (value : Int)
  | text (value : String)
  deriving DecidableEq, Repr

inductive Yaml
  | scalar (value : Scalar)
  | list (items : List Yaml)
  | mapping (entries : List (Scalar × Yaml))
  deriving Repr

namespace Yaml

def isEmpty : Yaml → Bool
  | scalar .null | scalar (.boolean false) | scalar (.integer 0) | scalar (.text "") => true
  | list [] | mapping [] => true
  | _ => false

def putEntry (key : Scalar) (value : Yaml) : List (Scalar × Yaml) → List (Scalar × Yaml)
  | []      => [(key, value)]
  | e :: es => if e.1 = key then (key, value) :: es else e :: putEntry key value es

def ofEntries (entries : List (Scalar × Yaml)) : Yaml :=
  mapping (entries.foldl (fun es e => putEntry e.1 e.2 es) [])

end Yaml

namespace Yaml.Reader

structure Line where
  indent  : Nat
  content : List Char

def isBreak (c : Char) : Bool :=
  c = '\n' || c = '\r' || c = '\x85' || c = '\u2028' || c = '\u2029'

def rawLines : List Char → List (List Char)
  | []      => [[]]
  | c :: cs =>
    if isBreak c then
      [] :: rawLines cs
    else
      match rawLines cs with
      | []      => [[c]]
      | l :: ls => (c :: l) :: ls

def isSpace (c : Char) : Bool :=
  c = ' ' || c = '\t'

def skipSpaces (cs : List Char) : List Char :=
  cs.dropWhile isSpace

def lines (cs : List Char) : List Line :=
  (rawLines cs).filterMap fun l =>
    match skipSpaces l with
    | [] | '#' :: _ => none
    | _ => some { indent  := (l.takeWhile (· = ' ')).length
                  content := l.dropWhile (· = ' ') }

def endsLine : List Char → Bool
  | []      => true
  | c :: cs =>
    isSpace c && match skipSpaces cs with
      | []       => true
      | '#' :: _ => true
      | _        => false

def isSeparator : List Char → Bool
  | [':']         => true
  | ':' :: c :: _ => isSpace c
  | _             => false

def octalDigits? : List Char → Option Nat
  | []      => none
  | cs      => cs.foldlM (fun n c =>
    if c = '_' then some n
    else if '0' ≤ c ∧ c ≤ '7' then some (8 * n + (c.toNat - 48))
    else none) 0

def decimalDigits? : List Char → Option Nat
  | c :: cs =>
    if '1' ≤ c ∧ c ≤ '9' then
      cs.foldlM (fun n c =>
        if c = '_' then some n
        else if c.isDigit then some (10 * n + (c.toNat - 48))
        else none) (c.toNat - 48)
    else
      none
  | [] => none

-- A number that begins with a zero is octal.
def natural? : List Char → Option Nat
  | ['0']     => some 0
  | '0' :: cs => octalDigits? cs
  | cs        => decimalDigits? cs

def integer? : List Char → Option Int
  | '-' :: cs => (natural? cs).map fun n => -(n : Int)
  | '+' :: cs => (natural? cs).map Int.ofNat
  | cs        => (natural? cs).map Int.ofNat

def trueWords : List String :=
  ["true", "True", "TRUE", "yes", "Yes", "YES", "on", "On", "ON"]

def falseWords : List String :=
  ["false", "False", "FALSE", "no", "No", "NO", "off", "Off", "OFF"]

def plain (cs : List Char) : Scalar :=
  let s := String.ofList cs
  if s ∈ ["", "~", "null", "Null", "NULL"] then .null
  else if s ∈ trueWords then .boolean true
  else if s ∈ falseWords then .boolean false
  else
    match integer? cs with
    | some n => .integer n
    | none   => .text s

def readSingleQuoted : List Char → Option (List Char × List Char)
  | []                 => none
  | '\'' :: '\'' :: cs => (readSingleQuoted cs).map fun (s, rest) => ('\'' :: s, rest)
  | '\'' :: cs         => some ([], cs)
  | c :: cs            => (readSingleQuoted cs).map fun (s, rest) => (c :: s, rest)

def escaped? : Char → Option Char
  | '0'  => some '\x00'
  | 'a'  => some '\x07'
  | 'b'  => some '\x08'
  | 't'  => some '\t'
  | 'n'  => some '\n'
  | 'v'  => some '\x0b'
  | 'f'  => some '\x0c'
  | 'r'  => some '\r'
  | 'e'  => some '\x1b'
  | ' '  => some ' '
  | '"'  => some '"'
  | '/'  => some '/'
  | '\\' => some '\\'
  | _    => none

def readDoubleQuoted : List Char → Option (List Char × List Char)
  | []              => none
  | '"' :: cs       => some ([], cs)
  | '\\' :: c :: cs =>
    match escaped? c with
    | some d => (readDoubleQuoted cs).map fun (s, rest) => (d :: s, rest)
    | none   => none
  | c :: cs         => (readDoubleQuoted cs).map fun (s, rest) => (c :: s, rest)

def takePlain (inside : Bool) : List Char → List Char
  | []      => []
  | c :: cs =>
    if isSeparator (c :: cs) || isSpace c && (skipSpaces cs).head? = some '#' ||
        inside && c ∈ [',', '[', ']', '\x7b', '\x7d'] then
      []
    else
      c :: takePlain inside cs

def trimRight (cs : List Char) : List Char :=
  (cs.reverse.dropWhile isSpace).reverse

def isIndicator (c : Char) : Bool :=
  c ∈ ['\t', ',', '[', ']', '\x7b', '\x7d', '#', '&', '*', '!', '|', '>', '%', '@', '\x60']

def isDash : List Char → Bool
  | ['-']         => true
  | '-' :: c :: _ => isSpace c
  | _             => false

def readScalar (inside : Bool) : List Char → Option ((Scalar × Bool) × List Char)
  | '\'' :: cs =>
    (readSingleQuoted cs).map fun (s, rest) => ((.text (String.ofList s), false), rest)
  | '"' :: cs  =>
    (readDoubleQuoted cs).map fun (s, rest) => ((.text (String.ofList s), false), rest)
  | cs         =>
    if cs.head?.any isIndicator || isDash cs then
      none
    else
      let taken := takePlain inside cs
      some ((plain (trimRight taken), true), cs.drop taken.length)

mutual

def readFlow : Nat → List Char → Option (Yaml × List Char)
  | 0, _                   => none
  | fuel + 1, '[' :: cs    => readItems fuel [] (skipSpaces cs)
  | fuel + 1, '\x7b' :: cs => readEntries fuel [] (skipSpaces cs)
  | _ + 1, cs              =>
    (readScalar true cs).map fun ((s, _), rest) => (.scalar s, skipSpaces rest)

def readItems : Nat → List Yaml → List Char → Option (Yaml × List Char)
  | 0, _, _                     => none
  | _ + 1, before, ']' :: cs    => some (.list before.reverse, cs)
  | fuel + 1, before, cs        => do
    let (item, cs) ← readFlow fuel cs
    match skipSpaces cs with
    | ',' :: cs => readItems fuel (item :: before) (skipSpaces cs)
    | ']' :: cs => return (.list (item :: before).reverse, cs)
    | _         => none

def readEntries : Nat → List (Scalar × Yaml) → List Char → Option (Yaml × List Char)
  | 0, _, _                     => none
  | _ + 1, before, '\x7d' :: cs => some (.ofEntries before.reverse, cs)
  | fuel + 1, before, cs        => do
    let ((key, _), cs) ← readScalar true cs
    let (value, cs) ← match skipSpaces cs with
      | ':' :: cs =>
        match skipSpaces cs with
        | ',' :: cs    => some (.scalar .null, ',' :: cs)
        | '\x7d' :: cs => some (.scalar .null, '\x7d' :: cs)
        | cs           => readFlow fuel cs
      | cs => some (.scalar .null, cs)
    match skipSpaces cs with
    | ',' :: cs    => readEntries fuel ((key, value) :: before) (skipSpaces cs)
    | '\x7d' :: cs => return (.ofEntries ((key, value) :: before).reverse, cs)
    | _            => none

end

inductive Opening
  | key (key : Scalar) (rest : List Char)
  | plain (text : List Char)
  | value (value : Yaml)

def opening (cs : List Char) : Option Opening :=
  match cs with
  | '[' :: _ | '\x7b' :: _ => do
    let (v, rest) ← readFlow (cs.length + 1) cs
    if endsLine rest then some (.value v) else none
  | _ => do
    let ((s, isPlain), rest) ← readScalar false cs
    let after := skipSpaces rest
    if isSeparator after then
      some (.key s (skipSpaces (after.drop 1)))
    else if endsLine rest then
      let taken := cs.take (cs.length - rest.length)
      some (if isPlain then .plain (trimRight taken) else .value (.scalar s))
    else
      none

-- A plain text goes on in the lines that are indented at least as deep as `least`.
def continuation (least : Nat) (text : List Char) : List Line → Option (Yaml × List Line)
  | []      => some (.scalar (plain text), [])
  | l :: ls =>
    if l.indent < least then
      some (.scalar (plain text), l :: ls)
    else
      match opening l.content with
      | some (.plain more) => continuation least (text ++ ' ' :: more) ls
      | _                  => none

mutual

def readBlock : Nat → (least : Nat) → List Line → Option (Yaml × List Line)
  | 0, _, _                  => none
  | _, _, []                 => some (.scalar .null, [])
  | fuel + 1, least, l :: ls =>
    if isDash l.content then
      readSequence fuel l.indent [] (l :: ls)
    else
      match opening l.content with
      | none               => none
      | some (.key _ _)    => readMapping fuel l.indent [] (l :: ls)
      | some (.value v)    => some (v, ls)
      | some (.plain text) => continuation least text ls

def readSequence : Nat → Nat → List Yaml → List Line → Option (Yaml × List Line)
  | 0, _, _, _                      => none
  | _ + 1, _, before, []            => some (.list before.reverse, [])
  | fuel + 1, indent, before, l :: ls =>
    if l.indent < indent then
      some (.list before.reverse, l :: ls)
    else if l.indent = indent && isDash l.content then
      let after := l.content.drop 1
      match skipSpaces after with
      | [] | '#' :: _ => do
        let (item, ls) ← readBelow fuel indent ls
        readSequence fuel indent (item :: before) ls
      | rest          => do
        let inner := indent + 1 + (after.length - rest.length)
        let (item, ls) ← readBlock fuel (indent + 1) ({ indent := inner, content := rest } :: ls)
        readSequence fuel indent (item :: before) ls
    else if l.indent = indent then
      some (.list before.reverse, l :: ls)
    else
      none

def readBelow : Nat → Nat → List Line → Option (Yaml × List Line)
  | 0, _, _            => none
  | _ + 1, _, []       => some (.scalar .null, [])
  | fuel + 1, indent, l :: ls =>
    if indent < l.indent then
      readBlock fuel (indent + 1) (l :: ls)
    else
      some (.scalar .null, l :: ls)

def readMapping : Nat → Nat → List (Scalar × Yaml) → List Line → Option (Yaml × List Line)
  | 0, _, _, _                        => none
  | _ + 1, _, before, []              => some (.ofEntries before.reverse, [])
  | fuel + 1, indent, before, l :: ls =>
    if l.indent < indent then
      some (.ofEntries before.reverse, l :: ls)
    else if l.indent = indent then
      match opening l.content with
      | some (.key key rest) =>
        match rest with
        | [] | '#' :: _ => do
          -- A sequence may stand right below its key.
          let (value, ls) ← match ls with
            | m :: _ =>
              if m.indent = indent && isDash m.content then readSequence fuel indent [] ls
              else readBelow fuel indent ls
            | [] => readBelow fuel indent ls
          readMapping fuel indent ((key, value) :: before) ls
        | rest          => do
          let (value, ls) ← match opening rest with
            | some (.value v)    => some (v, ls)
            | some (.plain text) => continuation (indent + 1) text ls
            | _                  => none
          readMapping fuel indent ((key, value) :: before) ls
      | _ => none
    else
      none

end

def isAllowed (c : Char) : Bool :=
  c = '\t' || isBreak c || ' ' ≤ c && c ≤ '~' || '\xa0' ≤ c && c ≠ '\ufffe' && c ≠ '\uffff'

end Yaml.Reader

def Yaml.ofText? (text : String) : Option Yaml :=
  if text.toList.all Yaml.Reader.isAllowed then
    match Yaml.Reader.readBlock (4 * (text.length + 1)) 0 (Yaml.Reader.lines text.toList) with
    | some (v, []) => some v
    | _            => none
  else
    none

end QueryPlanner
