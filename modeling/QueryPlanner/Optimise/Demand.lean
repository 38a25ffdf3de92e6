import QueryPlanner.Predicate
import QueryPlanner.Registry
import QueryPlanner.Relation
import QueryPlanner.Text.Printable

namespace QueryPlanner

-- How many uses further up in the plan still need each attribute. `overdrawn` counts the uses that
-- were given up although none was left.
structure Requirements where
  counts    : Registry String Nat := ∅
  overdrawn : Nat := 0

namespace Requirements

def count (r : Requirements) (name : String) : Nat :=
  (r.counts.get? name).getD 0

def isRequired (r : Requirements) (name : String) : Bool :=
  0 < r.count name

def increment (r : Requirements) (name : String) : Requirements :=
  { r with counts := r.counts.put name (r.count name + 1) }

def decrement (r : Requirements) (name : String) : Requirements where
  counts    := r.counts.put name (r.count name - 1)
  overdrawn := if r.count name = 0 then r.overdrawn + 1 else r.overdrawn

def firstOccurrences : List Attribute → List Attribute
  | []      => []
  | a :: as => a :: (firstOccurrences as).filter (·.name ≠ a.name)

def presentIn (r : Requirements) (relation : Relation) : List Attribute :=
  firstOccurrences (relation.attributes.filter (r.isRequired ·.name))

def describe (r : Requirements) : String :=
  let entries := (r.counts.entries.filter (0 < ·.2)).map fun (n, k) =>
    Text.quoted n ++ ": " ++ toString k
  "RequiredAttributes(\x7b" ++ ", ".intercalate entries ++ "\x7d)"

theorem count_increment (r : Requirements) (m n : String) :
    (r.increment m).count n = r.count n + if n = m then 1 else 0 := by
  simp only [count, increment, Registry.get?_put]
  split <;> simp_all

theorem count_decrement (r : Requirements) (m n : String) :
    (r.decrement m).count n = r.count n - if n = m then 1 else 0 := by
  simp only [count, decrement, Registry.get?_put]
  split <;> simp_all

end Requirements

structure NotPending where
  deriving DecidableEq, Repr

def NotPending.message (_ : NotPending) : String :=
  "list.remove(x): x not in list"

-- What the part of a plan above a subtree still wants from it: the predicates that have no place yet,
-- and the attributes that are needed later on. `narrowing` says whether attributes that nobody needs
-- are cut away.
structure Demand where
  selects   : List ValuePredicate := []
  joins     : List JoinPredicate := []
  required  : Requirements := {}
  narrowing : Bool := false

namespace Demand

def require (d : Demand) (name : String) : Demand :=
  { d with required := d.required.increment name }

def release (d : Demand) (name : String) : Demand :=
  { d with required := d.required.decrement name }

def requireAll (d : Demand) (names : List String) : Demand :=
  names.foldl require d

def releaseAll (d : Demand) (names : List String) : Demand :=
  names.foldl release d

def deferSelect (d : Demand) (p : ValuePredicate) : Demand :=
  { d.require p.name with selects := d.selects ++ [p] }

def deferJoin (d : Demand) (p : JoinPredicate) : Demand :=
  { d.requireAll p.attributes with joins := d.joins ++ [p] }

def defer (d : Demand) : Predicate → Demand
  | .value p => d.deferSelect p
  | .join p  => d.deferJoin p

def placeSelect (d : Demand) (p : ValuePredicate) : Except NotPending Demand :=
  if p ∈ d.selects then .ok { d.release p.name with selects := d.selects.erase p } else .error {}

-- The predicate is taken off the list, but its attributes remain required.
def claimJoin (d : Demand) (p : JoinPredicate) : Except NotPending Demand :=
  if p ∈ d.joins then .ok { d with joins := d.joins.erase p } else .error {}

def releaseJoin (d : Demand) (p : JoinPredicate) : Demand :=
  d.releaseAll p.attributes

def placeJoin (d : Demand) (p : JoinPredicate) : Except NotPending Demand :=
  return (← d.claimJoin p).releaseJoin p

def unmatched (d : Demand) : List Predicate :=
  d.selects.map .value ++ (d.joins.filter (!·.isSameName)).map .join

end Demand
end QueryPlanner
