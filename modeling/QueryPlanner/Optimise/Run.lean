import QueryPlanner.Estimate
import QueryPlanner.Optimise.Demand
import QueryPlanner.Optimise.Event

namespace QueryPlanner

-- What the optimiser may do. Without `reorderJoins` the candidates of a join search are combined in
-- the order in which they are found.
structure Options where
  pushProjections : Bool := true
  reorderJoins    : Bool := true
  deriving DecidableEq, Repr

inductive Failure
  | negativeTupleCount (count : Int)
  | notPending
  | danglingHandle (handle : Nat)
  | unfinishedSearch
  | tooManyDigits (limit : Nat)
  deriving DecidableEq, Repr

namespace Failure

def message : Failure → String
  | negativeTupleCount c => NegativeTupleCount.message ⟨c⟩
  | notPending           => NotPending.message {}
  | danglingHandle h     => "There is no component " ++ toString h
  | unfinishedSearch     => "The join search did not finish"
  | tooManyDigits k      =>
    "Exceeds the limit (" ++ toString k ++ " digits) for integer string conversion; " ++
      "use sys.set_int_max_str_digits() to increase the limit"

end Failure

structure Outcome (α : Type) where
  value  : α
  demand : Demand
  events : List Event

def Run (α : Type) := Demand → Except Failure (Outcome α)

namespace Run

variable {α β : Type}

protected def pure (a : α) : Run α := fun d =>
  .ok { value := a, demand := d, events := [] }

protected def bind (x : Run α) (f : α → Run β) : Run β := fun d =>
  match x d with
  | .error e => .error e
  | .ok o    =>
    match f o.value o.demand with
    | .error e => .error e
    | .ok p    => .ok { p with events := o.events ++ p.events }

instance : Monad Run where
  pure := Run.pure
  bind := Run.bind

instance : LawfulMonad Run  := .mk' Run
  (by
    intro α x
    funext d
    simp only [Functor.map, Run.bind, Run.pure, Function.comp]
    cases x d <;> simp)
  (by
    intro α β a f
    funext d
    simp only [bind, pure, Run.bind, Run.pure, List.nil_append]
    cases f a d <;> rfl)
  (by
    intro α β γ x f g
    funext d
    simp only [bind, Run.bind]
    cases x d with
    | error e => rfl
    | ok o =>
      dsimp only
      cases f o.value o.demand with
      | error e => rfl
      | ok p =>
        dsimp only
        cases g p.value p.demand <;> simp)

def demand : Run Demand := fun d =>
  .ok { value := d, demand := d, events := [] }

def modify (f : Demand → Demand) : Run Unit := fun d =>
  .ok { value := (), demand := f d, events := [] }

-- The message is written out even if nobody wants to see it.
def report [DigitLimit] (event : Event) : Run Unit := fun d =>
  match event.exceeded? with
  | none   => .ok { value := (), demand := d, events := [event] }
  | some k => .error (.tooManyDigits k)

def fail (e : Failure) : Run α := fun _ =>
  .error e

def place (f : Demand → Except NotPending Demand) : Run Unit := fun d =>
  match f d with
  | .ok d    => .ok { value := (), demand := d, events := [] }
  | .error _ => .error .notPending

def ofEstimate (x : Except NegativeTupleCount α) : Run α := fun d =>
  match x with
  | .ok a    => .ok { value := a, demand := d, events := [] }
  | .error e => .error (.negativeTupleCount e.count)

theorem bind_eq_ok_iff {x : Run α} {f : α → Run β} {d : Demand} {q : Outcome β} :
    (x >>= f) d = .ok q ↔
      ∃ o p, x d = .ok o ∧ f o.value o.demand = .ok p ∧
        q = { p with events := o.events ++ p.events } := by
  simp only [bind, Run.bind]
  cases x d with
  | error e => simp
  | ok o =>
    dsimp only
    cases h : f o.value o.demand <;> simp [h, eq_comm]

open Unlimited in
@[simp]
theorem report_apply (event : Event) (d : Demand) :
    report event d = .ok { value := (), demand := d, events := [event] } := by
  have hn : event.exceeded? = none := by cases event <;> rfl
  simp [report, hn]

end Run

variable [DigitLimit]

def narrow (plan : Plan Relation) : Run (Plan Relation) := do
  let demand ← Run.demand
  if !demand.narrowing then
    return plan
  let required := demand.required.presentIn plan.output
  if required.isEmpty then
    Run.report (.nothingRequired plan.operator)
    return .nothing
  if plan.output.attributes.length ≤ required.length then
    return plan
  return .projecting (required.map Attribute.name) plan.withoutProjection

def selectJoin (predicate : JoinPredicate) (plan : Plan Relation) : Run (Plan Relation) := do
  let plan ← Run.ofEstimate (Plan.selecting (.join predicate) plan)
  Run.place (·.placeJoin predicate)
  return plan

def selectValue (predicate : ValuePredicate) (plan : Plan Relation) : Run (Plan Relation) := do
  let plan ← Run.ofEstimate (Plan.selecting (.value predicate) plan)
  Run.place (·.placeSelect predicate)
  return plan

end QueryPlanner
