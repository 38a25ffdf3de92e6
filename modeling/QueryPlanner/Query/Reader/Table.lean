import QueryPlanner.Query.Reader.Alias

namespace QueryPlanner.Query.Reader

def row (p : Phrases) : Reader (Option (Option Buried)) := do
  if ← comesNext (symbol "(") then
    let es ← wrapped (commaList (p.aliased false))
    return some (Buried.below (es.map Expression.nearest))
  else
    return (← p.aliased false).map fun e => Buried.below [e.nearest]

def rows (p : Phrases) : Reader (Option (Option Buried)) := do
  if ← keyword "VALUES" then
    match ← commaList (row p) with
    | []   => mistake
    | rows => return some (Buried.below rows)
  else
    return none

def tablePart (p : Phrases) : Reader (Option (String × Option Buried)) := do
  match ← call p false with
  | some c => return some ("", c.nearest)
  | none   => return (← nameOf fun t => t.isName || isString t).map (·, none)

-- The last part of a name counts. Before it parts may be left out, but from the fourth part on none
-- may be. The three places before a part are shifted with every dot.
def tableParts (p : Phrases) : (fuel : Nat) → (catalogue database : Bool) →
    Option (String × Option Buried) → Reader (Option (String × Option Buried))
  | 0, _, _, _                              => mistake
  | fuel + 1, catalogue, database, table => do
    if ← symbol "." then
      if catalogue then
        let part ← required (tablePart p)
        tableParts p fuel true database (some part)
      else
        let part ← tablePart p
        tableParts p fuel database table.isSome part
    else
      return table

def tableName (p : Phrases) : Reader (String × Option Buried) := do
  let first ← tablePart p
  required (tableParts p ((← rest).length + 1) false false first)

def indexHints : (fuel : Nat) → Reader Unit
  | 0        => mistake
  | fuel + 1 => do
    if ← oneOf ["FORCE", "IGNORE", "USE"] then
      let _ ← oneOf ["INDEX", "KEY"]
      if ← keyword "FOR" then
        let _ ← anything
      let _ ← wrapped (commaList anything)
      indexHints fuel

def innerTable (p : Phrases) : Reader Statement := do
  let inner ← match ← p.query with
    | some q => pure q
    | none   =>
      let t ← p.table
      pure (.other t.inner {})
  let whole := (← p.combination inner.nearest).getD inner
  p.modified whole

def table (p : Phrases) (excluded : List String) : Reader Table := do
  match ← rows p with
  | some inner =>
    let _ ← tableAlias p excluded
    return { source := .derived, inner := inner }
  | none       =>
    match ← p.query with
    | some q => return { source := .derived, inner := q.inner }
    | none   =>
      if ← comesNext (symbol "(") then
        let inner ← wrapped (innerTable p)
        let _ ← tableAlias p Token.reservedAfterSource
        return { source := .derived, inner := inner.nearest }
      else
        let (name, inner) ← tableName p
        let _ ← symbol "*"
        if ← keyword "PARTITION" then
          let _ ← wrapped (commaList (disjunction p))
        let isAliased ← tableAlias p excluded
        indexHints ((← rest).length + 1)
        return { source := .relation name isAliased, inner := inner }

structure JoinHead where
  isInner : Bool
  isOpen  : Bool

def joinHead : Reader (Option JoinHead) := do
  let before ← rest
  let hasMethod ← oneOf ["ASOF", "NATURAL"]
  let hasSide ← oneOf ["FULL", "LEFT", "RIGHT"]
  let isPlain ← keyword "INNER"
  let isCross ← if isPlain then pure false else keyword "CROSS"
  let isOrdered ← if isPlain || isCross then pure false else keyword "STRAIGHT_JOIN"
  let isOuter ← if isPlain || isCross || isOrdered then pure false else
    oneOf ["ANTI", "OUTER", "SEMI"]
  if (← keyword "JOIN") || isOrdered then
    return some { isInner := !hasSide && !isOrdered && !isOuter, isOpen := !hasMethod && !isCross }
  else
    set before
    return none

structure OpenJoin where
  join   : Join
  isOpen : Bool

def joinCondition (p : Phrases) (j : Join) : Reader (Option Join) := do
  if ← keyword "ON" then
    return some { j with condition := ← disjunction p }
  else if ← keyword "USING" then
    let es ← perhapsWrapped (commaList (column p))
    return some { j with
      hasUsing := !es.isEmpty
      inner    := Buried.nearest (j.inner :: es.map Expression.nearest) }
  else
    return none

def nextJoin (p : Phrases) (head : JoinHead) : Reader OpenJoin := do
  let t ← p.table
  let j : Join := { source := t.source, isInner := head.isInner, inner := t.nearest }
  match ← joinCondition p j with
  | some j => return { join := j, isOpen := false }
  | none   => return { join := j, isOpen := head.isOpen }

def withLater (j : Join) (later : List Join) : Join :=
  { j with inner := Buried.nearest [j.inner, Buried.below (later.map Join.nearest)] }

-- A condition after the last join belongs to the last of the joins before it that is still open.
-- The joins after that one are a part of its source, and only the source itself is kept.
def lateCondition (p : Phrases) (before : List OpenJoin) : Reader (Option (List OpenJoin)) := do
  match before with
  | []             => return none
  | last :: others =>
    let (closed, rest) := others.span (!·.isOpen)
    match rest with
    | []             => return none
    | opened :: rest =>
      let later := (closed.reverse ++ [last]).map OpenJoin.join
      let j ← joinCondition p (withLater opened.join later)
      return j.map fun j => { join := j, isOpen := false } :: rest

def furtherJoins (p : Phrases) : (fuel : Nat) → List OpenJoin → Reader (List Join)
  | 0, _             => mistake
  | fuel + 1, before => do
    let next ← if ← symbol "," then
        let t ← attempt p.table
        pure (t.map fun t : Table =>
          { join := { source := t.source, inner := t.nearest }, isOpen := false : OpenJoin })
      else
        match ← joinHead with
        | some head => some <$> nextJoin p head
        | none      => pure none
    match next with
    | some j => furtherJoins p fuel (j :: before)
    | none   =>
      match ← lateCondition p before with
      | some before => furtherJoins p fuel before
      | none        => return (before.map OpenJoin.join).reverse

def joins (p : Phrases) : Reader (List Join) := do
  furtherJoins p ((← rest).length + 1) []

def joinedTable (p : Phrases) (excluded : List String) : Reader Table := do
  let t ← table p excluded
  let _ ← joins p
  return t

end QueryPlanner.Query.Reader
