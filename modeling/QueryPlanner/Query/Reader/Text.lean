import QueryPlanner.Query.Reader.Change

namespace QueryPlanner.Query

namespace Phrases

def ofDepth : Nat → Phrases
  | 0         => none
  | depth + 1 =>
    let p := ofDepth depth
    { operand      := Reader.operand p
      arithmetic   := Reader.arithmetic p
      equality     := Reader.equality p
      disjunction  := Reader.disjunction p
      aliased      := Reader.aliased p
      ordering     := Reader.ordering p
      limit        := Reader.limit p
      table        := Reader.table p Token.reservedAfterSource
      query        := Reader.query p
      operandQuery := Reader.operandQuery p
      combination  := Reader.combination p
      modified     := Reader.modified p }

end Phrases

namespace Reader

def expressionStatement (p : Phrases) : Reader Statement := do
  match ← aliased p false with
  | none   => modified p (← required (query p))
  | some e =>
    match ← combination p e.nearest, e with
    | some q, _     => modified p q
    | none, .query n => modified p (.other n {})
    | none, e        => return .other e.nearest {}

def statement (p : Phrases) : Reader Statement := do
  if ← change p then
    return .other none {}
  else
    expressionStatement p

def statement? (ts : List Token) : Option Statement :=
  match statement (Phrases.ofDepth (4 * (ts.length + 1))) ts with
  | some (s, []) => some s
  | _            => none

-- The parts between semicolons. A semicolon at the end begins no other part, and a remark is a part
-- of its own.
def split : List Token → List (List Token)
  | []                           => [[]]
  | [.symbol ";"]                => [[]]
  | [.symbol ";", .remark]       => [[], [.remark]]
  | .symbol ";" :: .remark :: ts => [] :: [.remark] :: split ts
  | .symbol ";" :: ts            => [] :: split ts
  | t :: ts                      =>
    match split ts with
    | []      => [[t]]
    | p :: ps => (t :: p) :: ps

def isReadable : List Token → Bool
  | []        => true
  | [.remark] => true
  | ts        => (statement? ts).isSome

end Reader

def Statement.ofText? (text : String) : Option Statement := do
  match Reader.split (← Token.ofText? text) with
  | [part] => Reader.statement? part
  | parts  => if parts.all Reader.isReadable then some (.other none {}) else none

end QueryPlanner.Query
