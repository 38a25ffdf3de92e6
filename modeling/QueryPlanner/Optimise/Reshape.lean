import QueryPlanner.JoinOrder.Search

namespace QueryPlanner

variable [DigitLimit]

def placeScan (r : NamedRelation) : Run (Plan Relation) := do
  let selects := (sortByText ValuePredicate.text (← Run.demand).selects).filter (r.has ·.name)
  let plan ← selects.foldlM (fun plan p => selectValue p plan) (.scanning r)
  let joins := (sortByText JoinPredicate.text (← Run.demand).joins).filter fun p =>
    !p.isSameName && r.has p.left && r.has p.right
  let plan ← joins.foldlM (fun plan p => selectJoin p plan) plan
  narrow plan

def ensureProjection (names : List String) (plan : Plan Relation) : Plan Relation :=
  match plan with
  | .project _ as input => if as = names then plan else .projecting names input
  | plan                => .projecting names plan

-- Below a projection only the attributes that it names, or that a predicate needs, are required.
def underProjection (options : Options) (names : List String) (input : Run (Plan Relation)) :
    Run (Plan Relation) := do
  let outer := (← Run.demand).narrowing
  Run.modify fun d => { d.requireAll names with narrowing := options.pushProjections }
  let plan ← narrow (← input)
  Run.modify fun d => { d with narrowing := outer }.releaseAll names
  return ensureProjection names plan

structure Reshaping where
  plan   : Run (Plan Relation)
  leaves : Run (List (Plan Relation))

namespace Reshaping

-- In a chain of products a leaf without tuples is dropped.
def keepLeaf (plan : Plan Relation) : Run (List (Plan Relation)) := do
  if plan.tupleCount = 0 then
    Run.report (.leafDiscarded plan.operator)
    return []
  else
    return [plan]

def leaf (plan : Run (Plan Relation)) : Reshaping where
  plan   := plan
  leaves := plan >>= keepLeaf

def chain (left right : Reshaping) : Run (List (Plan Relation)) :=
  return (← left.leaves) ++ (← right.leaves)

def ofPlan {ν : Type} (options : Options) : Plan ν → Reshaping
  | .scan _ r           => leaf (placeScan r)
  | .project _ as input => leaf (underProjection options as (ofPlan options input).plan)
  | .select _ p input   => leaf do
    Run.modify (·.defer p)
    (ofPlan options input).plan
  | .product _ l r      =>
    let leaves := chain (ofPlan options l) (ofPlan options r)
    { plan   := leaves >>= joinOrder options .product
      leaves := leaves }
  | .join _ p l r       => leaf do
    Run.modify (·.deferJoin p)
    joinOrder options (.join p) (← chain (ofPlan options l) (ofPlan options r))

end Reshaping

def reshape {ν : Type} (options : Options) (plan : Plan ν) : Run (Plan Relation) :=
  (Reshaping.ofPlan options plan).plan

def conclude (plan : Plan Relation) : Run (Plan Relation) := do
  match (← Run.demand).unmatched with
  | [] =>
    Run.report (.optimised plan.operator plan.tupleCount)
    return plan
  | unmatched =>
    Run.report (.unmatched unmatched)
    return .nothing

def optimise {ν : Type} (options : Options) (plan : Plan ν) :
    Except Failure (Outcome (Plan Relation)) :=
  (reshape options plan >>= conclude) {}

end QueryPlanner
