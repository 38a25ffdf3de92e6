import QueryPlanner.Query.Reader.Table

namespace QueryPlanner.Query.Reader

def orderingKey (p : Phrases) : Reader (Option (Option Buried)) := do
  match ← disjunction p with
  | none   => return none
  | some e =>
    let _ ← keyword "ASC"
    let _ ← keyword "DESC"
    let _ ← keywords ["NULLS", "FIRST"]
    let _ ← keywords ["NULLS", "LAST"]
    return some (Buried.below [e.nearest])

def ordering (p : Phrases) : Reader (Option (List (Option Buried))) := do
  if ← keyword "ORDER BY" then
    match ← commaList (orderingKey p) with
    | []   => mistake
    | keys => return some keys
  else
    return none

def clauseWords : List String :=
  ["FETCH", "FOR", "GROUP BY", "HAVING", "LIMIT", "LOCK", "OFFSET", "ORDER BY", "QUALIFY", "USING",
    "WHERE", "WINDOW"]

def groupKeys (p : Phrases) : Reader (List (Option Buried)) := do
  let _ ← oneOf ["ALL", "DISTINCT", "DISTINCTROW"]
  if ← comesNext (oneOf clauseWords) then
    return []
  else
    let es ← commaList (disjunction p)
    let _ ← sequence [Token.isKeyword "WITH", Token.isOneOf ["CUBE", "ROLLUP"]]
    return es.map Expression.nearest

def addClause (m : Modifiers) (c : Clause) (n : Option Buried) : Reader Modifiers :=
  if m.has c then mistake else return m.set c n

-- The next clause, if there is one. An offset that comes with a limit replaces an earlier one.
def clause (p : Phrases) (m : Modifiers) : Reader (Option Modifiers) := do
  if ← keyword "WHERE" then
    let e ← required (disjunction p)
    let m ← addClause m .condition (Buried.below [e.nearest])
    return some { m with condition := some e }
  else if ← keyword "GROUP BY" then
    return some (← addClause m .groups (Buried.below (← groupKeys p)))
  else if ← keyword "HAVING" then
    let e ← required (disjunction p)
    return some (← addClause m .groupCondition (Buried.below [e.nearest]))
  else
    match ← ordering p with
    | some keys => return some (← addClause m .order (Buried.below keys))
    | none      =>
      match ← limit p with
      | some (count, first) =>
        let m ← addClause m .limit (Buried.below [count])
        return some (first.elim m fun n => m.set .offset (Buried.below [n]))
      | none =>
        match ← offset p with
        | some n => return some (← addClause m .offset (Buried.below [n]))
        | none   => return none

def clauses (p : Phrases) : (fuel : Nat) → Modifiers → Reader Modifiers
  | 0, _        => mistake
  | fuel + 1, m => do
    match ← clause p m with
    | some m => clauses p fuel m
    | none   => return m

def modifiers (p : Phrases) (m : Modifiers) : Reader Modifiers := do
  let m := m.addJoins (← joins p)
  clauses p ((← rest).length + 1) m

def modified (p : Phrases) (s : Statement) : Reader Statement := do
  return s.withModifiers (← modifiers p s.modifiers)

end QueryPlanner.Query.Reader
