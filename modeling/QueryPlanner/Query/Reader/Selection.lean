import QueryPlanner.Query.Reader.Clause

namespace QueryPlanner.Query.Reader

def hint : Reader Unit := do
  match ← peek with
  | some (.hint text) =>
    skip 1
    match Token.ofText? text with
    | none | some [] => mistake
    | some _         => return
  | _ => return

def quantifier (p : Phrases) : Reader Bool := do
  let isLast : Bool := match ← rest with
    | _ :: t :: _ => t = .symbol "."
    | _           => true
  let isAll ← if isLast then pure false else keyword "ALL"
  let isDistinct ← if isLast then pure false else oneOf ["DISTINCT", "DISTINCTROW"]
  if isAll && isDistinct then
    mistake
  if ← keyword "AS" then
    let _ ← oneOf ["STRUCT", "VALUE"]
  if isDistinct then
    if ← keyword "ON" then
      let _ ← row p
  return isDistinct

def rowOptions : List String :=
  ["HIGH_PRIORITY", "SQL_BIG_RESULT", "SQL_BUFFER_RESULT", "SQL_CALC_FOUND_ROWS", "SQL_NO_CACHE",
    "SQL_SMALL_RESULT", "STRAIGHT_JOIN"]

def destination (p : Phrases) : Reader Unit := do
  if ← keyword "INTO" then
    let _ ← oneOf ["TEMP", "TEMPORARY"]
    let _ ← keyword "TABLE"
    let _ ← tableName p

def tableAfterFrom (p : Phrases) : Reader (Option Source) := do
  if ← keyword "FROM" then
    return some (← p.table).source
  else
    return none

def selectionAfter (p : Phrases) (source : Option Source) : Reader Selection := do
  hint
  let isDistinct ← quantifier p
  let _ ← skipAll (Token.isOneOf rowOptions)
  let items ← commaList (p.aliased false)
  destination p
  let source ← if source.isSome then pure source else tableAfterFrom p
  let m ← modifiers p {}
  return { isDistinct := isDistinct, items := items, source := source, modifiers := m }

def selection (p : Phrases) : Reader (Option Statement) := do
  let source ← if ← keyword "FROM" then
      some <$> joinedTable p Token.reservedAfterSource
    else
      pure none
  if ← keyword "SELECT" then
    return some (.selection (← selectionAfter p (source.map Table.source)))
  else
    match source with
    | some t => return some (.selection { items := [.all], source := some t.source })
    | none   =>
      match ← rows p with
      | some inner => do
        let _ ← tableAlias p Token.reservedAfterSource
        return some (.other inner {})
      | none       => return none

def operandQuery (p : Phrases) : Reader (Option Statement) := do
  match ← selection p with
  | some s => return some s
  | none   =>
    if ← comesNext (symbol "(") then
      let inner ← wrapped do
        let first ← required p.operandQuery
        p.modified ((← p.combination first.nearest).getD first)
      let _ ← tableAlias p Token.reservedAfterSource
      return some (.other inner.nearest {})
    else
      return none

def combinationOperator : Reader Bool := do
  let before ← rest
  let _ ← oneOf ["ASOF", "NATURAL"]
  let _ ← oneOf ["FULL", "LEFT", "RIGHT"]
  let _ ← oneOf ["ANTI", "CROSS", "INNER", "OUTER", "SEMI", "STRAIGHT_JOIN"]
  if ← oneOf ["EXCEPT", "INTERSECT", "UNION"] then
    let _ ← oneOf ["ALL", "DISTINCT", "DISTINCTROW"]
    return true
  else
    set before
    return false

-- The last query of a combination hands its order and its limit over to the whole.
def combine (first : Option Buried) (last : Statement) : Statement :=
  let (handed, kept) := last.modifiers.split
  .other (Buried.nearest [first, (last.withModifiers kept).nearest]) handed

def furtherQueries (p : Phrases) : (fuel : Nat) → Option Buried → Option Statement →
    Reader (Option Statement)
  | 0, _, _                   => mistake
  | fuel + 1, first, combined => do
    if ← combinationOperator then
      let last ← required (operandQuery p)
      let whole := combine first last
      furtherQueries p fuel whole.nearest (some whole)
    else
      return combined

def combination (p : Phrases) (first : Option Buried) : Reader (Option Statement) := do
  furtherQueries p ((← rest).length + 1) first none

def query (p : Phrases) : Reader (Option Statement) := do
  match ← selection p with
  | some s => return some ((← combination p s.nearest).getD s)
  | none   => return none

end QueryPlanner.Query.Reader
