import QueryPlanner.Query.Reader.Operation

namespace QueryPlanner.Query.Reader

def rowWords : Reader Unit := do
  let _ ← accept fun t => t = .symbol "%" || t.isKeyword "PERCENT"
  let _ ← oneOf ["ROW", "ROWS"]
  let _ ← keyword "ONLY"
  let _ ← keywords ["WITH", "TIES"]

def countedBy (p : Phrases) : Reader Unit := do
  if ← keyword "BY" then
    let _ ← commaList (arithmetic p)

-- A percent sign after a number is no operator here.
def rowCount (p : Phrases) : Reader (Option Expression) := do
  let before ← rest
  match ← attempt (term p) with
  | some (some (.remainder _)) => do set before; factor p
  | some (some e)              => return some e
  | some none | none           => factor p

def limit (p : Phrases) : Reader (Option (Option Buried × Option (Option Buried))) := do
  if ← keyword "LIMIT" then
    let first ← rowCount p
    rowWords
    if ← symbol "," then
      let count ← required (term p)
      countedBy p
      return some (count.nearest, first.map Expression.nearest)
    else
      let count ← required (pure first)
      countedBy p
      return some (count.nearest, none)
  else
    return none

def offset (p : Phrases) : Reader (Option (Option Buried)) := do
  if ← keyword "OFFSET" then
    let count ← required (term p)
    let _ ← oneOf ["ROW", "ROWS"]
    countedBy p
    return some count.nearest
  else
    return none

def opensLimit (p : Phrases) : Reader Bool :=
  comesNext do
    if (← limit p).isSome then
      return true
    else
      return (← offset p).isSome

def aliasName (isExplicit : Bool) (excluded : List String) : Reader (Option String) :=
  if isExplicit then
    anything
  else
    nameOf fun t => t.isName && !t.isOneOf excluded || isString t

def aliased (p : Phrases) (explicit : Bool) : Reader (Option Expression) := do
  let e ← disjunction p
  if ← opensLimit p then
    return e
  let isExplicit ← keyword "AS"
  if explicit && !isExplicit then
    return e
  if ← symbol "(" then
    let names ← commaList (if isExplicit then anything else name)
    let e ← required (pure e)
    require (symbol ")")
    if names.isEmpty then
      mistake
    return some (negation e)
  match ← aliasName isExplicit [] with
  | some _ => return some (negation (← required (pure e)))
  | none   => return e

def typedName : Reader (Option String) := do
  match ← anything with
  | some n =>
    let _ ← oneOf Token.types
    return some n
  | none   => return none

def columnNames : Reader Unit := do
  let before ← rest
  if ← symbol "(" then
    if (← commaList typedName).isEmpty then
      set before
    else
      require (symbol ")")

def tableAlias (p : Phrases) (excluded : List String) : Reader Bool := do
  if ← opensLimit p then
    return false
  let isExplicit ← keyword "AS"
  let given ← aliasName isExplicit excluded
  columnNames
  return given.any (· ≠ "")

end QueryPlanner.Query.Reader
