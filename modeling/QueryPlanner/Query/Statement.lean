namespace QueryPlanner.Query

inductive Source
  | relation (name : String) (aliased : Bool)
  | derived
  deriving DecidableEq, Repr

structure Buried where
  depth  : Nat
  source : Source
  deriving DecidableEq, Repr

namespace Buried

def deeper (b : Buried) : Buried :=
  { b with depth := b.depth + 1 }

def nearer : Option Buried → Option Buried → Option Buried
  | some a, some b => if b.depth < a.depth then some b else some a
  | some a, none   => some a
  | none, b        => b

def nearest (parts : List (Option Buried)) : Option Buried :=
  parts.foldr nearer none

def below (parts : List (Option Buried)) : Option Buried :=
  (nearest parts).map deeper

end Buried

-- An expression, as far as it matters for a plan. Of anything that is no equation or conjunction
-- only the nearest source is kept. For a query in parentheses it is the nearest one in that query.
inductive Expression
  | column (name : String)
  | literal (text : String)
  | null
  | all
  | allOf
  | parenthesised (inner : Expression)
  | conjunction (left right : Expression)
  | equation (left right : Expression)
  | remainder (nearest : Option Buried)
  | query (inner : Option Buried)
  | other (nearest : Option Buried)
  deriving DecidableEq, Repr

def Expression.nearest : Expression → Option Buried
  | column _ | literal _ | null | all | allOf => none
  | parenthesised e                           => Buried.below [e.nearest]
  | conjunction l r | equation l r            => Buried.below [l.nearest, r.nearest]
  | query n                                   => Buried.below [n]
  | remainder n | other n                     => n

structure Join where
  source    : Source
  isInner   : Bool := true
  hasUsing  : Bool := false
  condition : Option Expression := none
  inner     : Option Buried := none
  deriving DecidableEq, Repr

def Join.nearest (j : Join) : Option Buried :=
  Buried.below [j.inner, j.condition.bind Expression.nearest]

inductive Clause
  | joins
  | condition
  | groups
  | groupCondition
  | order
  | limit
  | offset
  deriving DecidableEq, Repr

structure Modifiers where
  joins     : List Join := []
  condition : Option Expression := none
  clauses   : List (Clause × Option Buried) := []
  deriving DecidableEq, Repr

namespace Modifiers

def has (m : Modifiers) (c : Clause) : Bool :=
  m.clauses.any (·.1 = c)

def set (m : Modifiers) (c : Clause) (n : Option Buried) : Modifiers :=
  if m.has c then
    { m with clauses := m.clauses.map fun d => if d.1 = c then (c, n) else d }
  else
    { m with clauses := m.clauses ++ [(c, n)] }

def addJoins (m : Modifiers) : List Join → Modifiers
  | [] => m
  | js =>
    let all := m.joins ++ js
    { m with joins := all }.set .joins (Buried.nearest (all.map Join.nearest))

def parts (m : Modifiers) : List (Option Buried) :=
  m.clauses.map (·.2)

def split (m : Modifiers) : Modifiers × Modifiers :=
  let goes (c : Clause × Option Buried) : Bool := c.1 ∈ [.order, .limit, .offset]
  ({ clauses := m.clauses.filter goes }, { m with clauses := m.clauses.filter (!goes ·) })

end Modifiers

structure Selection where
  isDistinct : Bool := false
  items      : List Expression := []
  source     : Option Source := none
  modifiers  : Modifiers := {}
  deriving DecidableEq, Repr

-- Without a source of its own a query shows the nearest one of the queries in it. Its limit counts
-- as if it came right after its items.
def Selection.inner (s : Selection) : Option Buried :=
  match s.source with
  | some source => some { depth := 0, source := source }
  | none        =>
    let (limits, others) := s.modifiers.clauses.partition (·.1 = .limit)
    Buried.nearest (s.items.map Expression.nearest ++ limits.map (·.2) ++ others.map (·.2))

inductive Statement
  | selection (selection : Selection)
  | other (inner : Option Buried) (modifiers : Modifiers)
  deriving DecidableEq, Repr

namespace Statement

def inner : Statement → Option Buried
  | selection s => s.inner
  | other n m   => Buried.nearest (n :: m.parts)

def nearest (s : Statement) : Option Buried :=
  Buried.below [s.inner]

def modifiers : Statement → Modifiers
  | selection s => s.modifiers
  | other _ m   => m

def withModifiers (m : Modifiers) : Statement → Statement
  | selection s => selection { s with modifiers := m }
  | other n _   => other n m

end Statement

end QueryPlanner.Query
