import QueryPlanner.Document.Json
import QueryPlanner.Plan
import QueryPlanner.Text.Printable

namespace QueryPlanner

inductive ExplainFormat
  | text
  | json
  deriving DecidableEq, Repr

namespace ExplainFormat

structure Unknown where
  name : String
  deriving DecidableEq, Repr

def Unknown.message (e : Unknown) : String :=
  Text.quoted e.name ++ " is not a valid ExplainFormat"

def ofName : String → Except Unknown ExplainFormat
  | "TEXT" => .ok .text
  | "JSON" => .ok .json
  | name   => .error ⟨name⟩

end ExplainFormat

namespace Plan

def remark : Option Relation → String
  | none   => ""
  | some r => "  (T=" ++ toString r.tupleCount ++ "; " ++ r.render ++ ")"

def line (depth : Nat) (plan : Plan (Option Relation)) : String :=
  String.ofList (List.replicate (2 * depth) ' ') ++ plan.operator.describe ++ remark plan.note

def listing (depth : Nat) : Plan (Option Relation) → List String
  | scan n r       => [line depth (scan n r)]
  | select n p i   => line depth (select n p i) :: i.listing (depth + 1)
  | project n as i => line depth (project n as i) :: i.listing (depth + 1)
  | product n l r  => line depth (product n l r) :: (l.listing (depth + 1) ++ r.listing (depth + 1))
  | join n p l r   => line depth (join n p l r) :: (l.listing (depth + 1) ++ r.listing (depth + 1))

def statistics : Option Relation → List (String × Document)
  | none   => []
  | some r => [
      ("tuple_count", .integer r.tupleCount),
      ("attributes", .list (r.attributes.map fun a =>
        .object [("name", .text a.name), ("value_count", .integer a.valueCount)]))
    ]

def nodeFields (plan : Plan (Option Relation)) : List (String × Document) :=
  ("operator", .text plan.operator.describe) :: statistics plan.note

def document : Plan (Option Relation) → Document
  | scan n r       => .object (nodeFields (scan n r))
  | select n p i   => .object (nodeFields (select n p i) ++ [("inputs", .list [i.document])])
  | project n as i => .object (nodeFields (project n as i) ++ [("inputs", .list [i.document])])
  | product n l r  =>
    .object (nodeFields (product n l r) ++ [("inputs", .list [l.document, r.document])])
  | join n p l r   =>
    .object (nodeFields (join n p l r) ++ [("inputs", .list [l.document, r.document])])

def explain (plan : Plan (Option Relation)) : ExplainFormat → String
  | .text => "\n".intercalate (plan.listing 0)
  | .json => plan.document.indented

end Plan
end QueryPlanner
