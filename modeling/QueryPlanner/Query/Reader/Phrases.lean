import QueryPlanner.Query.Reader

namespace QueryPlanner.Query

structure Table where
  source : Source
  inner  : Option Buried := none
  deriving DecidableEq, Repr

def Table.nearest (t : Table) : Option Buried :=
  Buried.below [t.inner]

-- The readers of the phrases that other phrases are made of. Phrases may hold each other, and every
-- reader of a phrase takes the readers of the phrases in it from here.
structure Phrases where
  operand     : Reader (Option Expression)
  arithmetic  : Reader (Option Expression)
  equality    : Reader (Option Expression)
  disjunction : Reader (Option Expression)
  aliased     : (explicit : Bool) → Reader (Option Expression)
  ordering    : Reader (Option (List (Option Buried)))
  limit       : Reader (Option (Option Buried × Option (Option Buried)))
  table       : Reader Table
  query       : Reader (Option Statement)
  operandQuery : Reader (Option Statement)
  combination : Option Buried → Reader (Option Statement)
  modified    : Statement → Reader Statement

namespace Phrases

def none : Phrases where
  operand      := Reader.mistake
  arithmetic   := Reader.mistake
  equality     := Reader.mistake
  disjunction  := Reader.mistake
  aliased      := fun _ => Reader.mistake
  ordering     := Reader.mistake
  limit        := Reader.mistake
  table        := Reader.mistake
  query        := Reader.mistake
  operandQuery := Reader.mistake
  combination  := fun _ => Reader.mistake
  modified     := fun _ => Reader.mistake

end Phrases
end QueryPlanner.Query
