import QueryPlanner.Query.Reader.Operand

namespace QueryPlanner.Query.Reader

abbrev Combine := Expression → Expression → Expression

def binary : Combine :=
  fun l r => .other (Buried.below [l.nearest, r.nearest])

def remainder : Combine :=
  fun l r => .remainder (Buried.below [l.nearest, r.nearest])

def operator (meaning : Token → Option Combine) : Reader (Option Combine) := do
  match (← peek).bind meaning with
  | some combine => do skip 1; return some combine
  | none         => return none

def join (combine : Combine) (left right : Option Expression) : Reader Expression :=
  match left, right with
  | some l, some r => return combine l r
  | _, _           => mistake

def furtherOperands (operand : Reader (Option Expression)) (operator : Reader (Option Combine)) :
    (fuel : Nat) → Option Expression → Reader (Option Expression)
  | 0, _           => mistake
  | fuel + 1, left => do
    match ← operator with
    | some combine =>
      let whole ← join combine left (← operand)
      furtherOperands operand operator fuel (some whole)
    | none         => return left

def chain (operand : Reader (Option Expression)) (operator : Reader (Option Combine)) :
    Reader (Option Expression) := do
  let left ← operand
  furtherOperands operand operator ((← rest).length + 1) left

-- The word `DIV` is an operator only if an operand comes after it.
def furtherFactors (p : Phrases) : (fuel : Nat) → Option Expression → Reader (Option Expression)
  | 0, _           => mistake
  | fuel + 1, left => do
    let before ← rest
    if ← accept fun t => t = .symbol "*" || t = .symbol "/" then
      let whole ← join binary left (← operand p)
      furtherFactors p fuel (some whole)
    else if ← keyword "DIV" then
      match ← operand p with
      | some right =>
        let whole ← join binary left (some right)
        furtherFactors p fuel (some whole)
      | none       => do set before; return left
    else
      return left

def factor (p : Phrases) : Reader (Option Expression) := do
  let left ← operand p
  furtherFactors p ((← rest).length + 1) left

def termOperator (t : Token) : Option Combine :=
  if t = .symbol "%" || t.isKeyword "MOD" then
    some remainder
  else if t = .symbol "+" || t = .symbol "-" || t.isKeyword "COLLATE" then
    some binary
  else
    none

def term (p : Phrases) : Reader (Option Expression) :=
  chain (factor p) (operator termOperator)

def bitwiseOperator : Reader (Option Combine) := do
  if ← accept fun t => t = .symbol "&" || t = .symbol "^" || t = .symbol "|" then
    return some binary
  else if ← sequence [(· = .symbol "<"), (· = .symbol "<")] then
    return some binary
  else if ← sequence [(· = .symbol ">"), (· = .symbol ">")] then
    return some binary
  else
    return none

def arithmetic (p : Phrases) : Reader (Option Expression) :=
  chain (term p) bitwiseOperator

def negation (e : Expression) : Expression :=
  .other (Buried.below [e.nearest])

def between (p : Phrases) (e : Expression) : Reader Expression := do
  let _ ← oneOf ["SYMMETRIC", "ASYMMETRIC"]
  let low ← required (arithmetic p)
  let _ ← keyword "AND"
  let high ← required (arithmetic p)
  return .other (Buried.below [e.nearest, low.nearest, high.nearest])

def memberValues (p : Phrases) : Reader (List (Option Buried)) := do
  let values ← commaList (queryOrExpression p p.disjunction)
  match values with
  | [.inl q]          => return [Buried.below [(← p.modified q).nearest]]
  | [.inr (.query n)] => return [Buried.below [(← p.modified (.other n {})).nearest]]
  | _                 => return values.map (Sum.elim Statement.nearest Expression.nearest)

def membership (p : Phrases) (e : Expression) : Reader Expression := do
  if ← symbol "(" then
    let inner ← memberValues p
    require (symbol ")")
    return .other (Buried.below (e.nearest :: inner))
  else if ← symbol "[" then
    let inner ← memberValues p
    require (symbol "]")
    return .other (Buried.below (e.nearest :: inner))
  else
    let field ← column p
    return .other (Buried.below [e.nearest, field.bind Expression.nearest])

def escapeCharacter (e : Expression) : Reader Expression := do
  if ← keyword "ESCAPE" then
    require (accept fun t => isString t || t.isKeyword "NULL")
    return .other (Buried.below [e.nearest])
  else
    return e

def pattern (p : Phrases) (e : Expression) : Reader Expression := do
  let right ← required (arithmetic p)
  escapeCharacter (binary e right)

def test (p : Phrases) (e : Expression) : Reader (Option Expression) := do
  if ← keyword "BETWEEN" then
    return some (← between p e)
  else if ← keyword "IN" then
    return some (← membership p e)
  else if ← oneOf ["GLOB", "ILIKE", "LIKE", "REGEXP", "RLIKE"] then
    return some (← pattern p e)
  else
    return none

-- A test, with a negation before it. Without a test the negation stands for itself. A negated
-- pattern is no deeper than the pattern.
def negatedTest (p : Phrases) (e : Expression) : Reader Expression := do
  let isNegated ← accept Token.isNegation
  let isPattern ← comesNext (oneOf ["ILIKE", "LIKE"])
  let tested ← match ← test p e with
    | some t => pure t
    | none   =>
      if ← accept fun t => t.isKeyword "ISNULL" || isNegated && t.isKeyword "NULL" then
        pure (negation e)
      else
        pure e
  if ← keyword "NOTNULL" then
    let present := negation (negation tested)
    return if isNegated then negation present else present
  else
    return if isNegated && !isPattern then negation tested else tested

def testWords : List String :=
  ["BETWEEN", "GLOB", "ILIKE", "IN", "LIKE", "NOTNULL", "REGEXP", "RLIKE"]

def tested (p : Phrases) : Reader (Option Expression) := do
  match ← arithmetic p with
  | some e => return some (← negatedTest p e)
  | none   =>
    if ← comesNext (oneOf testWords) then mistake else return none

def comparisonOperator (t : Token) : Option Combine :=
  if t ∈ [.symbol "<", .symbol ">", .symbol "<=", .symbol ">="] then some binary else none

def comparison (p : Phrases) : Reader (Option Expression) :=
  chain (tested p) (operator comparisonOperator)

def equalityOperator (t : Token) : Option Combine :=
  if t = .symbol "=" || t = .symbol "==" then
    some .equation
  else if t = .symbol "!=" || t = .symbol "<>" || t = .symbol "<=>" then
    some binary
  else
    none

def identity (p : Phrases) (e : Expression) : Reader (Option Expression) := do
  let isNegated ← accept Token.isNegation
  if ← keywords ["DISTINCT", "FROM"] then
    let right ← required (arithmetic p)
    return some (binary e right)
  else
    let right ← if ← keyword "NULL" then pure (some .null) else arithmetic p
    return right.map fun r => if isNegated then negation (binary e r) else binary e r

def furtherEqualities (p : Phrases) : (fuel : Nat) → Option Expression → Reader (Option Expression)
  | 0, _           => mistake
  | fuel + 1, left => do
    let before ← rest
    match ← operator equalityOperator with
    | some combine =>
      let whole ← join combine left (← comparison p)
      furtherEqualities p fuel (some whole)
    | none =>
      if ← keyword "IS" then
        let e ← required (pure left)
        match ← identity p e with
        | some whole => furtherEqualities p fuel (some whole)
        | none       => do set before; return left
      else
        return left

def equality (p : Phrases) : Reader (Option Expression) := do
  let left ← comparison p
  furtherEqualities p ((← rest).length + 1) left

def conjunctionOperator (t : Token) : Option Combine :=
  if t = .symbol "&&" || t.isKeyword "AND" then
    some .conjunction
  else if t.isKeyword "XOR" then
    some binary
  else
    none

def conjunction (p : Phrases) : Reader (Option Expression) :=
  chain (equality p) (operator conjunctionOperator)

def disjunctionOperator (t : Token) : Option Combine :=
  if t = .symbol "||" || t.isKeyword "OR" then some binary else none

def disjunction (p : Phrases) : Reader (Option Expression) :=
  chain (conjunction p) (operator disjunctionOperator)

end QueryPlanner.Query.Reader
