import QueryPlanner.JoinOrder.Redirects
import QueryPlanner.Predicate
import QueryPlanner.Text.Basic

namespace QueryPlanner

structure Candidate where
  left      : Handle
  right     : Handle
  predicate : Option JoinPredicate := none
  deriving DecidableEq, Repr

namespace Candidate

-- The order among equally cheap candidates: joins by the text of their predicates, then products.
def before (a b : Candidate) : Bool :=
  match a.predicate, b.predicate with
  | some p, some q => p.text < q.text
  | some _, none   => true
  | none, _        => false

def sort (cs : List Candidate) : List Candidate :=
  cs.mergeSort fun a b => !b.before a

def sides (c : Candidate) : List Handle :=
  [c.left, c.right]

def pairs : List Handle → List Candidate
  | []      => []
  | h :: hs => hs.map ({ left := h, right := · }) ++ pairs hs

def products (paired : List Handle) : List Handle → List Handle → List Candidate
  | [], _ => []
  | h :: hs, others =>
    if h ∈ paired then
      products paired hs others
    else
      (others.erase h).map ({ left := h, right := · }) ++ products paired hs (others.erase h)

end Candidate
end QueryPlanner
