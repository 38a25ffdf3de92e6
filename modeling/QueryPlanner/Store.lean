import QueryPlanner.Estimate

namespace QueryPlanner

inductive Node
  | scan (relation : Nat)
  | select (predicate : Predicate) (input : Nat)
  | project (names : List String) (input : Nat)
  | product (left right : Nat)
  | join (predicate : JoinPredicate) (left right : Nat)
  deriving DecidableEq, Repr

def Node.inputs : Node → List Nat
  | scan _                     => []
  | select _ i | project _ i   => [i]
  | product l r | join _ l r   => [l, r]

theorem Node.length_inputs_le (n : Node) : n.inputs.length ≤ 2 := by
  cases n <;> simp [inputs]

-- Plan nodes that may share inputs, each with its last estimated output. Nodes come after their
-- inputs, so there are no cycles. Scans of one relation see the same statistics.
structure Store where
  relations : List NamedRelation := []
  nodes     : List Node := []
  outputs   : List (Option Relation) := []
  ordered   : ∀ (i : Nat) (n : Node), nodes[i]? = some n → ∀ j ∈ n.inputs, j < i := by simp

namespace Store

inductive Failure
  | unknownNode (index : Nat)
  | notEstimated (node : String)
  | inputNotEstimated (input node : String)
  | negativeTupleCount (count : Int)
  deriving DecidableEq, Repr

namespace Failure

def message : Failure → String
  | unknownNode i         => "There is no node " ++ toString i
  | notEstimated n        => n ++ " has not been estimated"
  | inputNotEstimated i n => "Input " ++ i ++ " of " ++ n ++ " has not been estimated"
  | negativeTupleCount c  => NegativeTupleCount.message ⟨c⟩

def ofNegative (e : NegativeTupleCount) : Failure :=
  negativeTupleCount e.count

end Failure

def addRelation (s : Store) (r : NamedRelation) : Store :=
  { s with relations := s.relations ++ [r] }

def addNode? (s : Store) (n : Node) : Option Store :=
  if h : ∀ j ∈ n.inputs, j < s.nodes.length then
    some {
      relations := s.relations
      nodes     := s.nodes ++ [n]
      outputs   := s.outputs ++ [none]
      ordered   := by
        intro i m hm
        rcases Nat.lt_trichotomy i s.nodes.length with hi | hi | hi
        · exact s.ordered i m (by simpa [List.getElem?_append_left hi] using hm)
        · subst hi
          have : n = m := by simpa using hm
          exact this ▸ h
        · rw [List.getElem?_append_right (by omega)] at hm
          have : i - s.nodes.length ≠ 0 := by omega
          simp_all
    }
  else
    none

def output (s : Store) (i : Nat) : Option Relation :=
  s.outputs[i]?.join

def setOutput (s : Store) (i : Nat) (r : Relation) : Store :=
  { s with outputs := s.outputs.set i (some r) }

def addAttribute (s : Store) (relation : Nat) (a : Attribute) : Store :=
  { s with relations := s.relations.modify relation (·.add a) }

def relation (s : Store) (i : Nat) : NamedRelation :=
  s.relations.getD i default

def plan? (s : Store) (i : Nat) : Option (Plan (Option Relation)) :=
  match h : s.nodes[i]? with
  | none                => none
  | some (.scan r)      => some (.scan (s.output i) (s.relation r))
  | some (.select p j)  =>
    have := s.ordered i _ h j (by simp [Node.inputs])
    return .select (s.output i) p (← s.plan? j)
  | some (.project as j) =>
    have := s.ordered i _ h j (by simp [Node.inputs])
    return .project (s.output i) as (← s.plan? j)
  | some (.product j k) =>
    have := s.ordered i _ h j (by simp [Node.inputs])
    have := s.ordered i _ h k (by simp [Node.inputs])
    return .product (s.output i) (← s.plan? j) (← s.plan? k)
  | some (.join p j k)  =>
    have := s.ordered i _ h j (by simp [Node.inputs])
    have := s.ordered i _ h k (by simp [Node.inputs])
    return .join (s.output i) p (← s.plan? j) (← s.plan? k)
termination_by i

def operator? (s : Store) (i : Nat) : Option Operator :=
  s.nodes[i]?.map fun
    | .scan r       => .scan (s.relation r)
    | .select p _   => .select p
    | .project as _ => .project as
    | .product _ _  => .product
    | .join p _ _   => .join p

def label (s : Store) (i : Nat) : String :=
  match s.operator? i with
  | some o => o.label
  | none   => ""

def inputOutput (s : Store) (i j : Nat) : Except Failure Relation :=
  match s.output j with
  | some r => .ok r
  | none   => .error (.inputNotEstimated (s.label j) (s.label i))

def nodeOutput (s : Store) (i : Nat) : Except Failure Relation :=
  match s.nodes[i]? with
  | none                 => .error (.unknownNode i)
  | some (.scan r)       => return (s.relation r).statistics
  | some (.select p j)   => do ((← s.inputOutput i j).select p).mapError .ofNegative
  | some (.project as j) => return (← s.inputOutput i j).project as
  | some (.product j k)  => return (← s.inputOutput i j).product (← s.inputOutput i k)
  | some (.join p j k)   => do
    let l ← s.inputOutput i j
    let r ← s.inputOutput i k
    (l.join r p).mapError .ofNegative

def estimate (s : Store) (i : Nat) : Store × Except Failure Relation :=
  match s.nodeOutput i with
  | .ok r    => (s.setOutput i r, .ok r)
  | .error e => (s, .error e)

def inputs (s : Store) (i : Nat) : List Nat :=
  s.nodes[i]?.elim [] Node.inputs

structure Visit where
  node     : Nat
  expanded : Bool := false
  deriving DecidableEq, Repr

-- What a node on the stack weighs. Two nodes before it weigh less together.
def load : Nat → Nat
  | 0     => 2
  | i + 1 => 2 * load i + 2

theorem load_mono {i j : Nat} (h : j ≤ i) : load j ≤ load i := by
  induction h with
  | refl      => exact Nat.le_refl _
  | step _ hi => simp only [load]; omega

def weight : List Visit → Nat
  | []                  => 0
  | ⟨_, true⟩ :: stack  => weight stack + 1
  | ⟨i, false⟩ :: stack => weight stack + load i

theorem weight_append (vs ws : List Visit) : weight (vs ++ ws) = weight vs + weight ws := by
  induction vs with
  | nil          => exact (Nat.zero_add _).symm
  | cons v vs hi => obtain ⟨i, _ | _⟩ := v <;> simp only [List.cons_append, weight, hi] <;> omega

theorem weight_inputs_lt (s : Store) (i : Nat) :
    weight ((s.inputs i).map ({ node := · })) + 1 < load i := by
  have below {j} (h : j ∈ s.inputs i) : 2 * load j + 2 ≤ load i := by
    cases hn : s.nodes[i]? <;> simp only [inputs, hn, Option.elim] at h
    case none   => cases h
    case some n => exact load_mono (s.ordered i n hn j h)
  have least : load 0 ≤ load i := load_mono (Nat.zero_le i)
  have few : (s.inputs i).length ≤ 2 := by
    unfold inputs
    cases s.nodes[i]? with
    | none   => exact Nat.zero_le 2
    | some n => exact n.length_inputs_le
  match s.inputs i, @below, few with
  | [], _, _         => exact least
  | [j], below, _    => have := @below j; simp [weight] at this ⊢; omega
  | [j, k], below, _ => have := @below j; have := @below k; simp [weight] at *; omega

-- Works off a stack: a node is put back under its inputs, and estimated when it comes up again. The
-- first failure ends it.
def estimateStack (s : Store) : List Visit → Store × Except Failure Unit
  | []                  => (s, .ok ())
  | ⟨i, true⟩ :: stack  =>
    match s.estimate i with
    | (s, .ok _)    => s.estimateStack stack
    | (s, .error e) => (s, .error e)
  | ⟨i, false⟩ :: stack =>
    s.estimateStack ((s.inputs i).map ({ node := · }) ++ ⟨i, true⟩ :: stack)
termination_by stack => weight stack
decreasing_by
  · exact Nat.lt_succ_self _
  · have := s.weight_inputs_lt i
    rw [weight_append, weight, weight]
    omega

def tupleCount (s : Store) (i : Nat) : Except Failure Nat :=
  match s.output i with
  | some r => .ok r.tupleCount
  | none   => .error (.notEstimated (s.label i))

def estimatePlan (s : Store) (i : Nat) : Store × Except Failure Relation :=
  match s.estimateStack [{ node := i }] with
  | (s, .error e) => (s, .error e)
  | (s, .ok _)    =>
    match s.output i with
    | some r => (s, .ok r)
    | none   => (s, .error (.notEstimated (s.label i)))

end Store
end QueryPlanner
