import QueryPlanner.Catalogue
import QueryPlanner.Plan
import QueryPlanner.Query.Reader.Text
import QueryPlanner.Query.WhereList

namespace QueryPlanner

inductive QueryError
  | empty
  | unreadable
  | unsupportedStatement
  | noSource
  | unsupportedJoin
  | joinUsing
  | unsupportedSource
  | aliasedRelation
  | noEquality
  | unsupportedPredicate
  | distinct
  | unsupportedItem
  | catalogue (error : CatalogueError)
  deriving DecidableEq, Repr

namespace QueryError

def message : QueryError → String
  | empty                => "Query is empty"
  | unreadable           => "Failed to parse query"
  | unsupportedStatement => "Unsupported statement type"
  | noSource             => "SELECT must have FROM clause"
  | unsupportedJoin      => "Unsupported join"
  | joinUsing            => "JOIN ... USING is not supported"
  | unsupportedSource    => "Unsupported FROM item"
  | aliasedRelation      => "Relation aliases are not supported"
  | noEquality           => "Only equality predicates are supported"
  | unsupportedPredicate => "Unsupported predicate"
  | distinct             => "SELECT DISTINCT is not supported"
  | unsupportedItem      => "Unsupported SELECT item"
  | catalogue e          => e.message

end QueryError

namespace Query

inductive Condition
  | join (left right : String)
  | value (name : String) (value : String)
  deriving DecidableEq, Repr

def Condition.numbered (occurrence : Nat) : Condition → Predicate
  | join l r  => .join { occurrence := occurrence, left := l, right := r }
  | value a v => .value { occurrence := occurrence, name := a, value := v }

abbrev Reading := Except QueryError

def ofCatalogue {α : Type} : Except CatalogueError α → Reading α
  | .ok a    => .ok a
  | .error e => .error (.catalogue e)

def resolve (c : Catalogue) (name : String) : Reading String := do
  return (← ofCatalogue (c.attribute? name)).name

def scan (c : Catalogue) : Source → Reading (Plan Unit)
  | .derived         => .error .unsupportedSource
  | .relation _ true => .error .aliasedRelation
  | .relation n false => return .scan () (← ofCatalogue (c.relation n))

-- In an equation the star of a relation is taken for a column of that name.
def columnName? : Expression → Option String
  | .column a => some a
  | .allOf    => some "*"
  | _         => none

def equation (c : Catalogue) (left right : Expression) : Reading Condition :=
  match columnName? left, columnName? right with
  | some a, some b => do
    let a ← resolve c a
    return .join a (← resolve c b)
  | some a, none   => do
    let a ← resolve c a
    match right with
    | .literal v => return .value a v
    | _          => throw .unsupportedPredicate
  | none, some a   =>
    match left with
    | .literal v => return .value (← resolve c a) v
    | _          => throw .unsupportedPredicate
  | none, none     => throw .unsupportedPredicate

def conditions (c : Catalogue) : Expression → Reading (List Condition)
  | .parenthesised e => conditions c e
  | .conjunction l r => return (← conditions c l) ++ (← conditions c r)
  | .equation l r    => return [← equation c l r]
  | _                => .error .noEquality

def joins (c : Catalogue) (plan : Plan Unit) : List Join → Reading (Plan Unit × List Condition)
  | []      => return (plan, [])
  | j :: js => do
    if !j.isInner then
      throw .unsupportedJoin
    if j.hasUsing then
      throw .joinUsing
    let plan := .product () plan (← scan c j.source)
    let before ← j.condition.elim (return []) (conditions c)
    let (plan, after) ← joins c plan js
    return (plan, before ++ after)

def item (c : Catalogue) : Expression → Reading String
  | .column a => resolve c a
  | _         => .error .unsupportedItem

def selections (plan : Plan Unit) (conditions : List Condition) : Plan Unit :=
  conditions.zipIdx.foldl (fun plan (c, i) => .select () (c.numbered i) plan) plan

def Selection.plan (s : Selection) (c : Catalogue) : Reading (Plan Unit) := do
  let source ← match s.inner with
    | none        => throw .noSource
    | some buried => pure buried.source
  let (plan, joined) ← Query.joins c (← scan c source) s.modifiers.joins
  let selected ← s.modifiers.condition.elim (return []) (conditions c)
  let plan := selections plan (joined ++ selected)
  match s.items with
  | [.all] => return plan
  | items  =>
    if s.isDistinct then
      throw QueryError.distinct
    return .project () (← items.mapM (item c)) plan

-- The canonical plan of a query, whose statement is read by `read`.
def planBy (read : String → Option Statement) (c : Catalogue) (text : String) :
    Except QueryError (Plan Unit) :=
  match normalise? text with
  | none     => .error .empty
  | some sql =>
    match read sql with
    | none                => .error .unreadable
    | some (.other _ _)   => .error .unsupportedStatement
    | some (.selection s) => s.plan c

def plan : Catalogue → String → Except QueryError (Plan Unit) :=
  planBy Statement.ofText?

end Query
end QueryPlanner
