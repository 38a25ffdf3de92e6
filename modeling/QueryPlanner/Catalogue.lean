import QueryPlanner.Registry
import QueryPlanner.Relation
import QueryPlanner.Text.Basic
import QueryPlanner.Text.Numeral

namespace QueryPlanner

inductive CatalogueFault
  | missingCount
  | invalidCount (text : String)
  | negativeCount (count : Int)
  | malformedAttribute
  deriving DecidableEq, Repr

namespace CatalogueFault

def message : CatalogueFault → String
  | missingCount       => "expected '<relation>:<tuple count>'"
  | invalidCount t     => "invalid count '" ++ t ++ "'"
  | negativeCount n    => "negative count " ++ toString n
  | malformedAttribute => "expected '<attribute>,<value count>'"

end CatalogueFault

inductive CatalogueError
  | unknownRelation (name : String)
  | unknownAttribute (name : String)
  | malformedLine (number : Nat) (fault : CatalogueFault)
  deriving DecidableEq, Repr

namespace CatalogueError

def message : CatalogueError → String
  | unknownRelation n  => "Named relation " ++ n ++ " not found"
  | unknownAttribute n => "Attribute " ++ n ++ " not found"
  | malformedLine n f  => "Line " ++ toString n ++ ": " ++ f.message

end CatalogueError

-- The relations that plans can scan, and the attributes that predicates can name. An attribute is
-- listed with the value count of its last registration, before it is capped at a tuple count.
structure Catalogue where
  relations  : Registry String Relation := ∅
  attributes : Registry String Int := ∅

namespace Catalogue

def relation (c : Catalogue) (name : String) : Except CatalogueError NamedRelation :=
  match c.relations.get? name with
  | some r => .ok { name := name, statistics := r }
  | none   => .error (.unknownRelation name)

def attribute? (c : Catalogue) (name : String) : Except CatalogueError Attribute :=
  match c.attributes.get? name with
  | some v => .ok { name := name, valueCount := v }
  | none   => .error (.unknownAttribute name)

def addRelation (c : Catalogue) (name : String) (tupleCount : Nat) : Catalogue :=
  { c with relations := c.relations.put name (.of tupleCount []) }

def createRelation (c : Catalogue) (name : String) (tupleCount : Int) :
    Except NegativeTupleCount Catalogue :=
  if tupleCount < 0 then .error ⟨tupleCount⟩ else .ok (c.addRelation name tupleCount.toNat)

def createAttribute (c : Catalogue) (relation : String) (a : Attribute) :
    Except CatalogueError Catalogue :=
  match c.relations.get? relation with
  | none   => .error (.unknownRelation relation)
  | some r => .ok {
      relations  := c.relations.put relation (r.add a)
      attributes := c.attributes.put a.name a.valueCount
    }

def namedRelations (c : Catalogue) : List NamedRelation :=
  c.relations.entries.map fun (n, r) => { name := n, statistics := r }

def render (c : Catalogue) : String :=
  "\n".intercalate (c.namedRelations.map NamedRelation.render)

def describe (c : Catalogue) : String :=
  "Catalogue(relations=" ++ toString c.relations.size ++
    ", attributes=" ++ toString c.attributes.size ++ ")"

end Catalogue

structure CatalogueLine where
  relation   : Option (String × Nat) := none
  attributes : List Attribute := []
  fault      : Option CatalogueFault := none
  deriving DecidableEq, Repr

namespace CatalogueLine

def readCount (cs : List Char) : Except CatalogueFault Nat :=
  match Text.readInteger (Text.trim cs) with
  | none   => .error (.invalidCount (String.ofList (Text.trim cs)))
  | some n => if n < 0 then .error (.negativeCount n) else .ok n.toNat

def readAttribute (cs : List Char) : Except CatalogueFault Attribute :=
  match Text.fields ',' cs with
  | [name, count] => do
    return { name := String.ofList (Text.trim name), valueCount := ← readCount count }
  | _ => .error .malformedAttribute

def readAttributes : List (List Char) → List Attribute × Option CatalogueFault
  | []      => ([], none)
  | p :: ps =>
    match readAttribute p with
    | .error f => ([], some f)
    | .ok a    => (a :: (readAttributes ps).1, (readAttributes ps).2)

def ofParts : List (List Char) → CatalogueLine
  | name :: count :: parts =>
    match readCount count with
    | .error f => { fault := some f }
    | .ok n    => {
        relation   := some (String.ofList (Text.trim name), n)
        attributes := (readAttributes parts).1
        fault      := (readAttributes parts).2
      }
  | _ => { fault := some .missingCount }

def read? (line : List Char) : Option CatalogueLine :=
  match Text.trim line with
  | []       => none
  | '#' :: _ => none
  | cs       => some (ofParts (Text.fields ':' cs))

end CatalogueLine

namespace Catalogue

def register (c : Catalogue) (line : CatalogueLine) : Catalogue :=
  match line.relation with
  | none           => c
  | some (name, n) => {
      relations  := c.relations.put name (.of n line.attributes)
      attributes := line.attributes.foldl (fun r a => r.put a.name a.valueCount) c.attributes
    }

def readLines (c : Catalogue) (number : Nat) :
    List (List Char) → Catalogue × Except CatalogueError Unit
  | []      => (c, .ok ())
  | l :: ls =>
    match CatalogueLine.read? l with
    | none      => c.readLines (number + 1) ls
    | some line =>
      match line.fault with
      | some f => (c.register line, .error (.malformedLine number f))
      | none   => (c.register line).readLines (number + 1) ls

-- Registers what a text says. The part before the first malformed one is registered in any case.
def read (c : Catalogue) (text : String) : Catalogue × Except CatalogueError Unit :=
  c.readLines 1 (Text.lines text.toList)

def ofText (text : String) : Except CatalogueError Catalogue :=
  match Catalogue.read {} text with
  | (c, .ok ())   => .ok c
  | (_, .error e) => .error e

end Catalogue
end QueryPlanner
