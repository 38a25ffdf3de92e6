import QueryPlanner.Predicate
import QueryPlanner.Relation

namespace QueryPlanner

inductive Operator
  | scan (relation : NamedRelation)
  | select (predicate : Predicate)
  | project (names : List String)
  | product
  | join (predicate : JoinPredicate)
  deriving DecidableEq, Repr

namespace Operator

def describe : Operator → String
  | scan r     => "SCAN " ++ r.name
  | select p   => "SELECT [" ++ p.text ++ "]"
  | project as => "PROJECT [" ++ ",".intercalate as ++ "]"
  | product    => "TIMES"
  | join p     => "JOIN [" ++ p.text ++ "]"

def label : Operator → String
  | scan r     => "Scan(" ++ r.name ++ ")"
  | select p   => "Select(" ++ p.text ++ ")"
  | project as => "Project(" ++ toString as.length ++ " attributes)"
  | product    => "Product"
  | join p     => "Join(" ++ p.text ++ ")"

end Operator

-- A query plan with a note on every node. A `Plan Unit` is a bare plan, a `Plan Relation` carries the
-- estimated output of every node, and a `Plan (Option Relation)` is estimated in parts.
inductive Plan (ν : Type)
  | scan (note : ν) (relation : NamedRelation)
  | select (note : ν) (predicate : Predicate) (input : Plan ν)
  | project (note : ν) (names : List String) (input : Plan ν)
  | product (note : ν) (left right : Plan ν)
  | join (note : ν) (predicate : JoinPredicate) (left right : Plan ν)
  deriving DecidableEq, Repr

namespace Plan

variable {ν μ : Type}

def note : Plan ν → ν
  | scan n _ | select n _ _ | project n _ _ | product n _ _ | join n _ _ _ => n

def map (f : ν → μ) : Plan ν → Plan μ
  | scan n r         => scan (f n) r
  | select n p input => select (f n) p (input.map f)
  | project n as i   => project (f n) as (i.map f)
  | product n l r    => product (f n) (l.map f) (r.map f)
  | join n p l r     => join (f n) p (l.map f) (r.map f)

def bare (plan : Plan ν) : Plan Unit :=
  plan.map fun _ => ()

def inputs : Plan ν → List (Plan ν)
  | scan _ _                      => []
  | select _ _ i | project _ _ i  => [i]
  | product _ l r | join _ _ l r  => [l, r]

def operator : Plan ν → Operator
  | scan _ r       => .scan r
  | select _ p _   => .select p
  | project _ as _ => .project as
  | product _ _ _  => .product
  | join _ p _ _   => .join p

def label (plan : Plan ν) : String :=
  plan.operator.label

def scans : Plan ν → List NamedRelation
  | scan _ r                     => [r]
  | select _ _ i | project _ _ i => i.scans
  | product _ l r | join _ _ l r => l.scans ++ r.scans

def predicates : Plan ν → List Predicate
  | scan _ _      => []
  | select _ p i  => p :: i.predicates
  | project _ _ i => i.predicates
  | product _ l r => l.predicates ++ r.predicates
  | join _ p l r  => .join p :: (l.predicates ++ r.predicates)

def text : Plan ν → String
  | scan _ r       => r.name
  | select _ p i   => "SELECT [" ++ p.text ++ "] (" ++ i.text ++ ")"
  | project _ as i => "PROJECT [" ++ ",".intercalate as ++ "] (" ++ i.text ++ ")"
  | product _ l r  => "(" ++ l.text ++ ") TIMES (" ++ r.text ++ ")"
  | join _ p l r   => "(" ++ l.text ++ ") JOIN [" ++ p.text ++ "] (" ++ r.text ++ ")"

def withoutProjection : Plan ν → Plan ν
  | project _ _ i => i
  | plan          => plan

def isPlaceholder : Plan ν → Bool
  | scan _ r => r.isPlaceholder
  | _        => false

end Plan

namespace Plan

abbrev output (plan : Plan Relation) : Relation := plan.note

def tupleCount (plan : Plan Relation) : Nat := plan.output.tupleCount

end Plan
end QueryPlanner
