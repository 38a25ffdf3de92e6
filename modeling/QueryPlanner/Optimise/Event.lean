import QueryPlanner.Journal.Level
import QueryPlanner.Plan

namespace QueryPlanner

-- How many digits a number may have in a message that a run of the optimiser reports. Without a limit
-- any number can be reported. Nothing else is limited: numerals are read, and relations, listings and
-- documents are written, at any length.
class DigitLimit where
  limit : Option Nat

namespace DigitLimit

instance standard : DigitLimit where
  limit := some 4300

def exceeded? [DigitLimit] (n : Nat) : Option Nat :=
  limit.filter fun k => Nat.pow 10 k ≤ n

end DigitLimit

namespace Unlimited

scoped instance (priority := 2000) noLimit : DigitLimit where
  limit := none

end Unlimited

inductive Event
  | unmatched (predicates : List Predicate)
  | optimised (root : Operator) (tuples : Nat)
  | nothingRequired (root : Operator)
  | nothingContributes (root : Operator)
  | leafDiscarded (root : Operator)
  | disconnected (components : Nat)
  | costed (root : Operator) (tuples : Nat)
  | materialised (root : Operator) (tuples : Nat)
  deriving DecidableEq, Repr

namespace Event

def severity : Event → Severity
  | unmatched _ => .warning
  | _           => .debug

def logger : Event → String
  | unmatched _ | optimised _ _ | nothingRequired _ => "relopt.optimiser.optimiser"
  | _ => "relopt.optimiser.join_ordering"

def message : Event → String
  | unmatched ps =>
    "Predicates " ++ ", ".intercalate (ps.map Predicate.text) ++
      " match no relation; result is empty"
  | optimised o n => "Optimised plan " ++ o.label ++ " (" ++ toString n ++ " tuples)"
  | nothingRequired o => "No attribute of " ++ o.label ++ " is required; replacing with empty"
  | nothingContributes o => "No leaf of " ++ o.label ++ " contributes to the result"
  | leafDiscarded o => "Discarding leaf " ++ o.label ++ " with no tuples"
  | disconnected n => "Combining " ++ toString n ++ " disconnected components"
  | costed o n => "Candidate " ++ o.label ++ " estimated at " ++ toString n ++ " tuples"
  | materialised o n => "Materialising " ++ o.label ++ " (" ++ toString n ++ " tuples)"

def number? : Event → Option Nat
  | optimised _ n | disconnected n | costed _ n | materialised _ n => some n
  | _ => none

def exceeded? [DigitLimit] (e : Event) : Option Nat :=
  e.number?.bind DigitLimit.exceeded?

end Event
end QueryPlanner
