import QueryPlanner.JoinOrder.Candidate
import QueryPlanner.Optimise.Run

namespace QueryPlanner

-- The plans of a join search. Combining two components adds a new one and redirects the two to it,
-- so that outstanding candidates need not be changed.
structure Components where
  plans     : Array (Plan Relation) := #[]
  redirects : Redirects := {}

namespace Components

def ofLeaves (leaves : List (Plan Relation)) : Components where
  plans := leaves.toArray

def owner (c : Components) (h : Handle) : Handle :=
  c.redirects.owner h

def add (c : Components) (plan : Plan Relation) : Handle × Components :=
  (c.plans.size, { c with plans := c.plans.push plan })

def replace (c : Components) (h : Handle) (plan : Plan Relation) : Components :=
  { c with plans := c.plans.setIfInBounds h plan }

def redirect (c : Components) (h t : Handle) : Components :=
  { c with redirects := c.redirects.redirect h t }

def plan (c : Components) (h : Handle) : Run (Plan Relation) :=
  match c.plans[c.owner h]? with
  | some p => return p
  | none   => Run.fail (.danglingHandle h)

def provides (c : Components) (name : String) (h : Handle) : Bool :=
  c.plans[c.owner h]?.any (·.output.has name)

def hasTuples (c : Components) (h : Handle) : Bool :=
  c.plans[c.owner h]?.any (0 < ·.tupleCount)

def isEliminated (c : Components) (h : Handle) : Bool :=
  c.plans[c.owner h]?.any Plan.isPlaceholder

def live (c : Components) (leaves : List Handle) : List Handle :=
  (leaves.map c.owner).eraseDups.filter (!c.isEliminated ·)

def isOutstanding (c : Components) (k : Candidate) : Bool :=
  !c.isEliminated k.left && !c.isEliminated k.right && c.owner k.left != c.owner k.right

-- The two sides have become one component, in which the predicate still has to hold.
def collapsed? (c : Components) (k : Candidate) : Option (Handle × JoinPredicate) :=
  if !c.isEliminated k.left && c.owner k.left == c.owner k.right then
    k.predicate.map (k.left, ·)
  else
    none

end Components
end QueryPlanner
