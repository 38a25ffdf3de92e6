import QueryPlanner.Plan

namespace QueryPlanner

-- All divisions round towards the floor, and dividing by zero leaves no tuples. `Int.fdiv` does both.

namespace Relation

def degraded (r : Relation) : Relation :=
  of 0 r.attributes

def recount (names : List String) (count : Int) (attributes : List Attribute) : List Attribute :=
  attributes.map fun a => if a.name ∈ names then a.withValueCount count else a

def selectValue (r : Relation) (name : String) : Except NegativeTupleCount Relation :=
  match r.get? name with
  | none   => .ok r.degraded
  | some a => of? (Int.fdiv r.tupleCount a.valueCount) (recount [name] 1 r.attributes)

def selectEqual (r : Relation) (left right : String) : Except NegativeTupleCount Relation :=
  match r.get? left, r.get? right with
  | some a, some b =>
    of? (Int.fdiv r.tupleCount (max a.valueCount b.valueCount))
      (recount [left, right] (min a.valueCount b.valueCount) r.attributes)
  | _, _ => .ok r.degraded

def select (r : Relation) : Predicate → Except NegativeTupleCount Relation
  | .join p  => r.selectEqual p.left p.right
  | .value p => r.selectValue p.name

def project (r : Relation) (names : List String) : Relation :=
  of r.tupleCount (names.map fun n => (r.get? n).getD { name := n, valueCount := 0 })

def product (r s : Relation) : Relation :=
  of (r.tupleCount * s.tupleCount) (r.attributes ++ s.attributes)

-- The attributes that a join compares. A predicate may also be meant the other way round.
def joinSides (r s : Relation) (p : JoinPredicate) : Option (Attribute × Attribute) :=
  match r.get? p.left, s.get? p.right with
  | some a, some b => some (a, b)
  | _, _ =>
    match r.get? p.right, s.get? p.left with
    | some a, some b => some (a, b)
    | _, _           => none

def join (r s : Relation) (p : JoinPredicate) : Except NegativeTupleCount Relation :=
  match r.joinSides s p with
  | none        => .ok (of 0 (r.attributes ++ s.attributes))
  | some (a, b) =>
    let shared := min a.valueCount b.valueCount
    of? (Int.fdiv (r.tupleCount * s.tupleCount) (max a.valueCount b.valueCount))
      (recount [a.name] shared r.attributes ++ recount [b.name] shared s.attributes)

end Relation

namespace Plan

def scanning (r : NamedRelation) : Plan Relation :=
  scan r.statistics r

def selecting (p : Predicate) (input : Plan Relation) : Except NegativeTupleCount (Plan Relation) :=
  return select (← input.output.select p) p input

def projecting (names : List String) (input : Plan Relation) : Plan Relation :=
  project (input.output.project names) names input

def multiplying (left right : Plan Relation) : Plan Relation :=
  product (left.output.product right.output) left right

def joining (p : JoinPredicate) (left right : Plan Relation) :
    Except NegativeTupleCount (Plan Relation) :=
  return join (← left.output.join right.output p) p left right

def estimate {ν : Type} : Plan ν → Except NegativeTupleCount (Plan Relation)
  | scan _ r       => return scanning r
  | select _ p i   => do selecting p (← i.estimate)
  | project _ as i => return projecting as (← i.estimate)
  | product _ l r  => return multiplying (← l.estimate) (← r.estimate)
  | join _ p l r   => do joining p (← l.estimate) (← r.estimate)

def nothing : Plan Relation :=
  scanning .placeholder

end Plan
end QueryPlanner
