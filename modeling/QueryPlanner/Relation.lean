namespace QueryPlanner

structure Attribute where
  name       : String
  valueCount : Int
  deriving DecidableEq, Repr, Inhabited

namespace Attribute

def render (a : Attribute) : String :=
  a.name ++ "," ++ toString a.valueCount

def withValueCount (a : Attribute) (count : Int) : Attribute :=
  { a with valueCount := count }

def describe (a : Attribute) : String :=
  "Attribute(" ++ a.name ++ ", V=" ++ toString a.valueCount ++ ")"

def cappedAt (a : Attribute) (limit : Nat) : Attribute :=
  if (limit : Int) < a.valueCount then a.withValueCount limit else a

@[simp]
theorem withValueCount_name (a : Attribute) (count : Int) :
    (a.withValueCount count).name = a.name :=
  rfl

@[simp]
theorem withValueCount_valueCount (a : Attribute) (count : Int) :
    (a.withValueCount count).valueCount = count :=
  rfl

@[simp]
theorem cappedAt_name (a : Attribute) (limit : Nat) : (a.cappedAt limit).name = a.name := by
  unfold cappedAt; split <;> rfl

theorem cappedAt_valueCount (a : Attribute) (limit : Nat) :
    (a.cappedAt limit).valueCount = min a.valueCount limit := by
  unfold cappedAt
  split
  · rw [withValueCount_valueCount]; omega
  · omega

theorem cappedAt_le (a : Attribute) (limit : Nat) : (a.cappedAt limit).valueCount ≤ limit := by
  rw [cappedAt_valueCount]; omega

theorem cappedAt_of_le {a : Attribute} {limit : Nat} (h : a.valueCount ≤ limit) :
    a.cappedAt limit = a := by
  unfold cappedAt; split
  · omega
  · rfl

end Attribute

structure NegativeTupleCount where
  count : Int
  deriving DecidableEq, Repr

def NegativeTupleCount.message (e : NegativeTupleCount) : String :=
  "Tuple count must not be negative: " ++ toString e.count

-- The statistics of a relation. A relation has no more distinct values of an attribute than tuples,
-- so every value count is capped at the tuple count on its way in. Value counts below zero are kept.
@[ext]
structure Relation where
  tupleCount : Nat
  attributes : List Attribute
  capped     : ∀ a ∈ attributes, a.valueCount ≤ tupleCount
  deriving DecidableEq, Repr

namespace Relation

def of (tupleCount : Nat) (attributes : List Attribute) : Relation where
  tupleCount := tupleCount
  attributes := attributes.map (·.cappedAt tupleCount)
  capped     := by
    intro a ha
    obtain ⟨b, _, rfl⟩ := List.mem_map.mp ha
    exact b.cappedAt_le tupleCount

def of? (tupleCount : Int) (attributes : List Attribute) : Except NegativeTupleCount Relation :=
  if tupleCount < 0 then .error ⟨tupleCount⟩ else .ok (of tupleCount.toNat attributes)

instance : Inhabited Relation := ⟨of 0 []⟩

@[simp]
theorem of_tupleCount (n : Nat) (as : List Attribute) : (of n as).tupleCount = n :=
  rfl

@[simp]
theorem of_attributes (n : Nat) (as : List Attribute) :
    (of n as).attributes = as.map (·.cappedAt n) :=
  rfl

theorem of_self (r : Relation) : of r.tupleCount r.attributes = r := by
  ext1
  · rfl
  · exact (List.map_congr_left fun a h => Attribute.cappedAt_of_le (r.capped a h)).trans (by simp)

def add (r : Relation) (a : Attribute) : Relation :=
  of r.tupleCount (r.attributes ++ [a])

theorem add_attributes (r : Relation) (a : Attribute) :
    (r.add a).attributes = r.attributes ++ [a.cappedAt r.tupleCount] := by
  have h := congrArg attributes r.of_self
  simp only [of_attributes] at h
  simp [add, h]

-- An attribute name may occur more than once. The first occurrence is the one that counts.
def get? (r : Relation) (name : String) : Option Attribute :=
  r.attributes.find? (·.name = name)

def has (r : Relation) (name : String) : Bool :=
  (r.get? name).isSome

def names (r : Relation) : List String :=
  r.attributes.map Attribute.name

theorem get?_name {r : Relation} {name : String} {a : Attribute} (h : r.get? name = some a) :
    a.name = name := by
  simpa using List.find?_some h

theorem get?_mem {r : Relation} {name : String} {a : Attribute} (h : r.get? name = some a) :
    a ∈ r.attributes :=
  List.mem_of_find?_eq_some h

theorem has_iff {r : Relation} {name : String} : r.has name ↔ name ∈ r.names := by
  simp [has, get?, names]

def render (r : Relation) : String :=
  ":".intercalate (toString r.tupleCount :: r.attributes.map Attribute.render)

def agrees (r s : Relation) : Bool :=
  r.tupleCount == s.tupleCount && r.attributes.isPerm s.attributes

theorem agrees_iff {r s : Relation} :
    r.agrees s ↔ r.tupleCount = s.tupleCount ∧ r.attributes.Perm s.attributes := by
  simp [agrees, List.isPerm_iff]

end Relation

structure NamedRelation where
  name       : String
  statistics : Relation
  deriving DecidableEq, Repr, Inhabited

namespace NamedRelation

def placeholderName : String := "<Empty>"

def placeholder : NamedRelation where
  name       := placeholderName
  statistics := .of 0 []

def isPlaceholder (r : NamedRelation) : Bool :=
  r.name = placeholderName

def has (r : NamedRelation) (name : String) : Bool :=
  r.statistics.has name

def add (r : NamedRelation) (a : Attribute) : NamedRelation :=
  { r with statistics := r.statistics.add a }

def render (r : NamedRelation) : String :=
  r.name ++ ":" ++ r.statistics.render

end NamedRelation

inductive AnyRelation
  | unnamed (statistics : Relation)
  | named (relation : NamedRelation)
  deriving DecidableEq, Repr

namespace AnyRelation

def statistics : AnyRelation → Relation
  | unnamed r => r
  | named r   => r.statistics

def add (a : Attribute) : AnyRelation → AnyRelation
  | unnamed r => unnamed (r.add a)
  | named r   => named (r.add a)

def render : AnyRelation → String
  | unnamed r => r.render
  | named r   => r.render

def describe : AnyRelation → String
  | unnamed r => "Relation(" ++ r.render ++ ")"
  | named r   => "NamedRelation(" ++ r.render ++ ")"

def text : AnyRelation → String
  | unnamed r => (unnamed r).describe
  | named r   => r.name

def isPlaceholder? : AnyRelation → Option Bool
  | unnamed _ => none
  | named r   => some r.isPlaceholder

def agrees : AnyRelation → AnyRelation → Bool
  | named r, named s => r.name == s.name && r.statistics.agrees s.statistics
  | r, s             => r.statistics.agrees s.statistics

end AnyRelation
end QueryPlanner
