namespace QueryPlanner

-- An equality between two attributes. A condition that is written twice counts twice, so each
-- predicate carries the number of its occurrence.
structure JoinPredicate where
  occurrence : Nat
  left       : String
  right      : String
  deriving DecidableEq, Repr, Inhabited

namespace JoinPredicate

def text (p : JoinPredicate) : String :=
  p.left ++ "=" ++ p.right

def attributes (p : JoinPredicate) : List String :=
  [p.left, p.right]

theorem left_mem_attributes (p : JoinPredicate) : p.left ∈ p.attributes :=
  List.mem_cons_self ..

theorem right_mem_attributes (p : JoinPredicate) : p.right ∈ p.attributes :=
  List.mem_cons_of_mem _ (List.mem_singleton_self _)

def isSameName (p : JoinPredicate) : Bool :=
  p.left = p.right

def swapped (p : JoinPredicate) : JoinPredicate :=
  { p with left := p.right, right := p.left }

end JoinPredicate

structure ValuePredicate where
  occurrence : Nat
  name       : String
  value      : String
  deriving DecidableEq, Repr, Inhabited

namespace ValuePredicate

def text (p : ValuePredicate) : String :=
  p.name ++ "=\"" ++ p.value ++ "\""

end ValuePredicate

inductive Predicate
  | join (predicate : JoinPredicate)
  | value (predicate : ValuePredicate)
  deriving DecidableEq, Repr

namespace Predicate

def occurrence : Predicate → Nat
  | join p  => p.occurrence
  | value p => p.occurrence

def text : Predicate → String
  | join p  => p.text
  | value p => p.text

def describe : Predicate → String
  | join p  => "AttrEqAttr(" ++ p.text ++ ")"
  | value p => "AttrEqValue(" ++ p.text ++ ")"

def attributes : Predicate → List String
  | join p  => p.attributes
  | value p => [p.name]

def equalsValue : Predicate → Bool
  | join _  => false
  | value _ => true

end Predicate
end QueryPlanner
