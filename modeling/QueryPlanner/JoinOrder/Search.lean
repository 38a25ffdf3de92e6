import QueryPlanner.JoinOrder.Components
import QueryPlanner.Optimise.Run

namespace QueryPlanner

variable [DigitLimit]

namespace Components

def selfJoin (leaves : List Handle) (c : Components) (p : JoinPredicate) : Run Components :=
  if p.isSameName then
    return c
  else
    match leaves.find? fun h => c.provides p.left h && c.provides p.right h with
    | none   => return c
    | some h => do
      let plan ← selectJoin p (← c.plan h)
      return c.replace h (← narrow plan)

def selfJoins (leaves : List Handle) (c : Components) : Run Components := do
  (sortByText JoinPredicate.text (← Run.demand).joins).foldlM (selfJoin leaves) c

-- The leaves that a predicate pairs: the first ones with its attributes. A predicate on one name
-- pairs the first two leaves with that name.
def pairFor? (c : Components) (leaves : List Handle) (p : JoinPredicate) :
    Option (Handle × Handle) :=
  let lefts := leaves.filter (c.provides p.left)
  if p.isSameName then
    match lefts with
    | h :: k :: _ => some (h, k)
    | _           => none
  else
    match lefts, leaves.filter (c.provides p.right) with
    | h :: _, k :: _ => some (h, k)
    | _, _           => none

def joinCandidates (c : Components) (leaves : List Handle) :
    List JoinPredicate → Run (List Candidate)
  | []      => return []
  | p :: ps =>
    match c.pairFor? leaves p with
    | none        => c.joinCandidates leaves ps
    | some (h, k) => do
      Run.place (·.claimJoin p)
      return { left := h, right := k, predicate := some p } :: (← c.joinCandidates leaves ps)

-- The predicate is turned round if only its other side is on the left.
def build (c : Components) (k : Candidate) : Run (Plan Relation) := do
  let left ← c.plan k.left
  let right ← c.plan k.right
  match k.predicate with
  | none   => return .multiplying left right
  | some p =>
    let turned := !left.output.has p.left && left.output.has p.right
    Run.ofEstimate (Plan.joining (if turned then p.swapped else p) left right)

def cost (c : Components) (k : Candidate) : Run (Candidate × Plan Relation) := do
  let plan ← c.build k
  Run.report (.costed plan.operator plan.tupleCount)
  return (k, plan)

def cheaper (best next : Candidate × Plan Relation) : Candidate × Plan Relation :=
  if next.2.tupleCount < best.2.tupleCount ∨
      next.2.tupleCount = best.2.tupleCount ∧ next.1.before best.1 then
    next
  else
    best

def cheapest (options : Options) (c : Components) (first : Candidate) (rest : List Candidate) :
    Run (Candidate × Plan Relation) := do
  let best ← c.cost first
  if options.reorderJoins then
    rest.foldlM (fun best k => return cheaper best (← c.cost k)) best
  else
    return best

def materialise (c : Components) (k : Candidate) (plan : Plan Relation) : Run Components := do
  Run.report (.materialised plan.operator plan.tupleCount)
  if let some p := k.predicate then
    Run.modify (·.releaseJoin p)
  let (handle, c) := c.add (← narrow plan)
  return (c.redirect k.left handle).redirect k.right handle

def selectWithin (c : Components) (k : Handle × JoinPredicate) : Run Components := do
  let plan ← Run.ofEstimate (Plan.selecting (.join k.2) (← c.plan k.1))
  Run.modify (·.releaseJoin k.2)
  let (handle, c) := c.add (← narrow plan)
  return c.redirect k.1 handle

-- Drops the candidates whose sides are combined or gone, and applies their predicates within the
-- component they ended up in. That may take away more components, hence the repetition. Each one
-- drops a candidate, so that the number of candidates bounds it.
def settle (c : Components) (candidates : List Candidate) : Run (Components × List Candidate) :=
  go candidates.length c candidates
where
  go : Nat → Components → List Candidate → Run (Components × List Candidate)
    | 0, c, candidates        => return (c, candidates)
    | fuel + 1, c, candidates => do
      let outstanding := candidates.filter c.isOutstanding
      match candidates.filterMap c.collapsed? with
      | []        => return (c, outstanding)
      | collapsed =>
        let c ← (sortByText (·.2.text) collapsed).foldlM selectWithin c
        go fuel c outstanding

def agenda (leaves : List Handle) (c : Components) (candidates : List Candidate) :
    Run (Components × List Candidate) := do
  let (c, outstanding) ← c.settle candidates
  if outstanding.isEmpty then
    let live := c.live leaves
    if 1 < live.length then
      Run.report (.disconnected live.length)
    return (c, Candidate.pairs live)
  else
    return (c, outstanding)

def finish (leaves : List Handle) (c : Components) : Run (Plan Relation) :=
  match c.live leaves with
  | []     => return .nothing
  | h :: _ => c.plan h

def reduce (options : Options) (leaves : List Handle) :
    Nat → Components → List Candidate → Run (Plan Relation)
  | 0, _, _                 => Run.fail .unfinishedSearch
  | fuel + 1, c, candidates => do
    match ← c.agenda leaves candidates with
    | (c, [])            => c.finish leaves
    | (c, first :: rest) =>
      let (best, plan) ← c.cheapest options first rest
      let c ← c.materialise best plan
      reduce options leaves fuel c ((first :: rest).erase best)

end Components

def joinOrder (options : Options) (root : Operator) (leaves : List (Plan Relation)) :
    Run (Plan Relation) := do
  if leaves.isEmpty then
    Run.report (.nothingContributes root)
    return .nothing
  let handles := List.range leaves.length
  let c ← (Components.ofLeaves leaves).selfJoins handles
  let handles := handles.filter c.hasTuples
  let joins ← c.joinCandidates handles (← Run.demand).joins
  let products := Candidate.products (joins.flatMap Candidate.sides) handles handles
  match handles, joins ++ products with
  | [], _          => return .nothing
  | [h], []        => c.plan h
  | _, candidates  => c.reduce options handles handles.length candidates

end QueryPlanner
