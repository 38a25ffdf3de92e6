import QueryPlanner.Query.Reader.Selection

namespace QueryPlanner.Query.Reader

-- Statements that change data. None of them has a plan, but they may have mistakes.

def joinedTableHere (p : Phrases) : Reader (Option Table) := do
  return some (← joinedTable p Token.reservedAfterSource)

def condition (p : Phrases) : Reader Unit := do
  if ← keyword "WHERE" then
    let _ ← required (disjunction p)

def deletion (p : Phrases) : Reader Unit := do
  hint
  if !(← comesNext (keyword "FROM")) then
    let _ ← commaList do return some (← p.table)
  if ← keyword "FROM" then
    let _ ← joinedTableHere p
  if ← keyword "USING" then
    let _ ← commaList (joinedTableHere p)
  condition p
  let _ ← ordering p
  let _ ← limit p

def updateClauses (p : Phrases) : (fuel : Nat) → Reader Unit
  | 0        => mistake
  | fuel + 1 => do
    if ← keyword "SET" then
      let _ ← commaList (equality p)
      updateClauses p fuel
    else if ← keyword "FROM" then
      let _ ← joinedTableHere p
      updateClauses p fuel
    else if ← comesNext (keyword "WHERE") then
      condition p
      updateClauses p fuel
    else if (← ordering p).isSome then
      updateClauses p fuel
    else if (← limit p).isSome then
      updateClauses p fuel

def update (p : Phrases) : Reader Unit := do
  hint
  let _ ← joinedTable p ("SET" :: Token.reservedAfterSource)
  updateClauses p ((← rest).length + 1)

def insertedQuery (p : Phrases) : Reader Unit := do
  match ← operandQuery p with
  | none   => return
  | some q =>
    let whole := (← combination p q.nearest).getD q
    let _ ← modified p whole

def insertion (p : Phrases) : Reader Unit := do
  hint
  let _ ← keyword "IGNORE"
  let _ ← keyword "INTO"
  let _ ← keyword "TABLE"
  let _ ← tableName p
  let opensQuery (t : Token) : Bool := t = .symbol "(" || t.isOneOf ["SELECT", "WITH"]
  if ← comesNext (sequence [(· = .symbol "("), (!opensQuery ·)]) then
    let _ ← wrapped (commaList typedName)
  let _ ← keywords ["DEFAULT", "VALUES"]
  if ← comesNext (keyword "AS") then
    let _ ← tableAlias p Token.reservedAfterSource
  match ← rows p with
  | some _ => do
    let _ ← tableAlias p Token.reservedAfterSource
  | none   => insertedQuery p

def droppable : List String :=
  ["COLUMN", "CONSTRAINT", "DATABASE", "FUNCTION", "INDEX", "PROCEDURE", "SCHEMA", "SEQUENCE",
    "TABLE", "VIEW"]

def removal (p : Phrases) : Reader Unit := do
  let _ ← oneOf ["TEMP", "TEMPORARY"]
  if ← oneOf droppable then
    let _ ← keywords ["IF", "EXISTS"]
    let _ ← tableName p
    if ← keyword "ON" then
      let _ ← anything
    let _ ← oneOf ["CASCADE", "RESTRICT"]
    let _ ← keyword "CONSTRAINTS"
    let _ ← keyword "PURGE"
  else
    let _ ← skipAll fun _ => true

def unreadStatements : List String :=
  ["ALTER", "ANALYZE", "BEGIN", "CALL", "COMMIT", "CREATE", "DESC", "DESCRIBE", "EXPLAIN", "GRANT",
    "KILL", "LOAD", "MERGE", "REPLACE", "REVOKE", "ROLLBACK", "SET", "SHOW", "TRUNCATE", "USE",
    "WITH"]

def change (p : Phrases) : Reader Bool := do
  if ← keyword "DELETE" then
    deletion p
    return true
  else if ← keyword "UPDATE" then
    update p
    return true
  else if ← keyword "INSERT" then
    insertion p
    return true
  else if ← keyword "DROP" then
    removal p
    return true
  else if ← oneOf unreadStatements then
    let _ ← skipAll fun _ => true
    return true
  else
    return false

end QueryPlanner.Query.Reader
