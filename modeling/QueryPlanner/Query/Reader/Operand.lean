import QueryPlanner.Query.Reader.Phrases

namespace QueryPlanner.Query.Reader

def isString : Token → Bool
  | .string _ => true
  | _         => false

def starChanges (p : Phrases) : List (List String) → Reader Unit
  | []          => return
  | words :: rest => do
    if ← oneOf words then
      if ← comesNext (symbol "(") then
        let _ ← wrapped (commaList (p.aliased false))
      else
        let _ ← p.aliased true
    starChanges p rest

def parenthesised (p : Phrases) : Reader Expression := do
  match ← p.query with
  | some q => return .query (← p.modified q).nearest
  | none   =>
    let es ← places (p.aliased false)
    match es.filterMap id with
    | .query n :: _ =>
      let first ← p.modified (.other n {})
      let whole := (← p.combination first.nearest).getD first
      return .query (← p.modified whole).nearest
    | [e]           =>
      return if es.getLast? = some none then .other (Buried.below [e.nearest]) else .parenthesised e
    | es            => return .other (Buried.below (es.map Expression.nearest))

def value (p : Phrases) : Reader (Option Expression) := do
  match ← rest with
  | .string s :: _               =>
    let count ← skipAll isString
    return some (if count = 1 then .literal s else .other none)
  | .number n :: _               => do skip 1; return some (.literal n)
  | .constant :: _               => do skip 1; return some (.other none)
  | .symbol "." :: .number n :: _ => do skip 2; return some (.literal ("0." ++ n))
  | .symbol "*" :: _             =>
    skip 1
    starChanges p [["EXCEPT", "EXCLUDE"], ["REPLACE"], ["RENAME"]]
    return some .all
  | .symbol "(" :: _             => return some (← wrapped (parenthesised p))
  | t :: _                       =>
    if t.isKeyword "NULL" then
      skip 1
      return some .null
    else if t.isOneOf ["TRUE", "FALSE"] then
      skip 1
      return some (.other none)
    else
      return none
  | []                           => return none

def queryOrExpression (p : Phrases) (expression : Reader (Option Expression)) :
    Reader (Option (Statement ⊕ Expression)) := do
  match ← p.query with
  | some q => return some (.inl q)
  | none   =>
    match ← expression with
    | none   => return none
    | some e =>
      match ← p.combination e.nearest with
      | some q => return some (.inl q)
      | none   => return some (.inr e)

def arity (function : String) : Nat × Option Nat :=
  match function with
  | "ABS" | "AVG" | "LOWER" | "SUM" | "UPPER" => (1, some 1)
  | "EXISTS"                                  => (1, some 2)
  | "LENGTH"                                  => (1, some 3)
  | "COALESCE" | "CONCAT" | "MAX" | "MIN"     => (1, none)
  | "MOD"                                     => (2, none)
  | _                                         => (0, none)

def builtIn : List String :=
  ["ABS", "AVG", "COALESCE", "CONCAT", "COUNT", "EXISTS", "LENGTH", "LOWER", "MAX", "MIN", "MOD",
    "SUM", "UPPER"]

def argumentValue (p : Phrases) (function : String) : Reader (Option (Option Buried)) := do
  if ← oneOf ["DISTINCT", "DISTINCTROW"] then
    let es ← commaList p.disjunction
    return some (Buried.below (es.map Expression.nearest))
  else
    let expression := if function ∈ builtIn then p.disjunction else p.aliased true
    return (← queryOrExpression p expression).map (Sum.elim Statement.nearest Expression.nearest)

def argument (p : Phrases) (function : String) : Reader (Option (Option Buried)) := do
  let value ← argumentValue p function
  let ordered := match ← p.ordering with
    | some keys => some (Buried.below (value.join :: keys))
    | none      => value
  match ← p.limit with
  | some (count, first) =>
    return some (Buried.below (ordered.join :: count :: first.toList))
  | none                => return ordered

def takes (function : String) (count : Nat) : Bool :=
  let (least, most) := arity function
  least ≤ count && most.all (count ≤ ·)

def call (p : Phrases) (afterDot : Bool) : Reader (Option Expression) := do
  match ← rest with
  | t :: .symbol "(" :: next =>
    if !(if afterDot then t.isAnything else t.isFunction) then
      return none
    else if t.isOneOf ["ALL", "EXISTS", "SOME"] && next.head?.any (Token.isKeyword "SELECT") then
      skip 2
      let q ← required p.query
      require (symbol ")")
      return some (.other (Buried.below [q.nearest]))
    else
      skip 2
      let function := Text.capitals t.text
      let arguments ← commaList (argument p function)
      require (symbol ")")
      if takes function arguments.length then
        return some (.other (Buried.below arguments))
      else
        mistake
  | _ => return none

def callOrAny (p : Phrases) : Reader (Option Expression) := do
  if ← keyword "ANY" then
    let e ← required p.arithmetic
    return some (.other (Buried.below [e.nearest]))
  else
    call p false

def isNumber : Token → Bool
  | .number _ => true
  | _         => false

def placeholder : Reader (Option String) := do
  match ← rest with
  | .symbol "?" :: _                     => do skip 1; return some ""
  | .symbol "@" :: .symbol "@" :: t :: _ =>
    if t.isName then do skip 3; return some t.text else return none
  | .symbol "@" :: t :: _                =>
    if t.isAnything then do skip 2; return some t.text else return none
  | .symbol ":" :: t :: _                =>
    if t.isName || isNumber t then do skip 2; return some t.text else return none
  | _                                    => return none

def nameOf (kind : Token → Bool) : Reader (Option String) :=
  orElse placeholder do
    match ← peek with
    | some t => if kind t then do skip 1; return some t.text else return none
    | none   => return none

def name : Reader (Option String) :=
  nameOf Token.isName

def anything : Reader (Option String) :=
  nameOf Token.isAnything

def lastPart : Expression → Expression
  | .literal t => .column t
  | .column a  => .column a
  | .null      => .column "NULL"
  | .all       => .allOf
  | _          => .column ""

def bracketed (p : Phrases) : Reader (Option (List Expression)) := do
  if ← symbol "[" then
    let es ← commaList (p.aliased true)
    require (symbol "]")
    return some es
  else
    return none

def partAfterDot (p : Phrases) : Reader (Option Expression) :=
  orElse (value p) do
    match ← placeholder with
    | some _ => return some (.other none)
    | none   => return (← anything).map .column

-- What comes after dots and in brackets. A column has at most four parts, and its last part names
-- it.
def dotted (p : Phrases) : (fuel : Nat) → (parts : Nat) → Expression → Reader Expression
  | 0, _, _            => mistake
  | fuel + 1, parts, e => do
    if ← symbol "." then
      match ← call p true with
      | some c => dotted p fuel 0 (.other (Buried.below [e.nearest, c.nearest]))
      | none   =>
        let part ← required (partAfterDot p)
        match parts with
        | 0         => dotted p fuel 0 (.other (Buried.below [e.nearest, part.nearest]))
        | parts + 1 => dotted p fuel parts (lastPart part)
    else
      match ← bracketed p with
      | some es => dotted p fuel 0 (.other (Buried.below (e.nearest :: es.map Expression.nearest)))
      | none    => return e

def column (p : Phrases) : Reader (Option Expression) := do
  match ← orElse (value p) (callOrAny p) with
  | some e => return some (← dotted p ((← rest).length + 1) 0 e)
  | none   =>
    match ← placeholder with
    | some _ => return some (← dotted p ((← rest).length + 1) 0 (.other none))
    | none   =>
      match ← name with
      | some a => return some (← dotted p ((← rest).length + 1) 3 (.column a))
      | none   =>
        match ← bracketed p with
        | some es => return some (.other (Buried.below (es.map Expression.nearest)))
        | none    => return none

-- Whether a literal comes next. Texts that follow each other are none.
def opensLiteral : Reader Bool := do
  match ← rest with
  | .string _ :: .string _ :: _   => return false
  | .string _ :: _ | .number _ :: _ => return true
  | .symbol "." :: .number _ :: _ => return true
  | _                             => return false

def typedLiteral (p : Phrases) : Reader (Option Expression) := do
  let before ← rest
  if !(← oneOf Token.types) then
    return none
  else if ← opensLiteral then
    let e ← required (column p)
    return some (.other (Buried.below [e.nearest]))
  else
    set before
    return none

def operand (p : Phrases) : Reader (Option Expression) := do
  if ← symbol "+" then
    p.operand
  else if ← accept fun t => t = .symbol "-" || t = .symbol "~" then
    let e ← required p.operand
    return some (.other (Buried.below [e.nearest]))
  else if ← accept Token.isNegation then
    let e ← required p.equality
    return some (.other (Buried.below [e.nearest]))
  else
    orElse (typedLiteral p) (column p)

end QueryPlanner.Query.Reader
