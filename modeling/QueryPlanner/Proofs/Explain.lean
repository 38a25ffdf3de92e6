import Mathlib.Data.List.Forall2
import QueryPlanner.Explain
import QueryPlanner.Proofs.Document.Ascii

namespace QueryPlanner

namespace Document

def field? (name : String) : Document → Option Document
  | object fields => fields.lookup name
  | _             => none

def fieldNames : Document → List String
  | object fields => fields.map Prod.fst
  | _             => []

structure Counts (d : Document) (a : Attribute) : Prop where
  names : d.fieldNames = ["name", "value_count"]
  name  : d.field? "name" = some (.text a.name)
  count : d.field? "value_count" = some (.integer a.valueCount)

inductive Estimates (d : Document) : Option Relation → Prop
  | none (count : d.field? "tuple_count" = none) (attributes : d.field? "attributes" = none) :
    Estimates d none
  | some {r : Relation} {as : List Document}
    (count : d.field? "tuple_count" = some (.integer r.tupleCount))
    (attributes : d.field? "attributes" = some (.list as))
    (counts : List.Forall₂ Counts as r.attributes) :
    Estimates d (some r)

structure Heads (d : Document) (plan : Plan (Option Relation)) : Prop where
  names     : d.fieldNames.Sublist ["operator", "tuple_count", "attributes", "inputs"]
  operator  : d.field? "operator" = some (.text plan.operator.describe)
  estimates : d.Estimates plan.note

-- A document that is the given plan, node by node and with the inputs in their order.
inductive Describes : Document → Plan (Option Relation) → Prop
  | node {d : Document} {ds : List Document} {plan : Plan (Option Relation)} (heads : d.Heads plan)
    (inputs : d.field? "inputs" = if ds.isEmpty then none else some (.list ds))
    (describes : List.Forall₂ Describes ds plan.inputs) :
    Describes d plan

-- What a listing shows of a document, in terms of the fields of the document alone.

def countText (d : Document) : String :=
  match d.field? "name", d.field? "value_count" with
  | some (.text name), some (.integer count) => name ++ "," ++ toString count
  | _, _                                     => ""

def remark (d : Document) : String :=
  match d.field? "tuple_count", d.field? "attributes" with
  | some (.integer t), some (.list as) =>
    "  (T=" ++ toString t ++ "; " ++ ":".intercalate (toString t :: as.map countText) ++ ")"
  | _, _ => ""

def entry (depth : Nat) (d : Document) : String :=
  match d.field? "operator" with
  | some (.text operator) =>
    String.ofList (List.replicate (2 * depth) ' ') ++ operator ++ d.remark
  | _ => ""

mutual

def listing (depth : Nat) : Document → List String
  | object fields => entry depth (object fields) :: inputListing (depth + 1) fields
  | _             => []

def inputListing (depth : Nat) : List (String × Document) → List String
  | []                          => []
  | ("inputs", .list ds) :: _   => listings depth ds
  | _ :: fields                 => inputListing depth fields

def listings (depth : Nat) : List Document → List String
  | []      => []
  | d :: ds => d.listing depth ++ listings depth ds

end

end Document

namespace Plan

open Document (Counts Estimates Heads Describes countText)

def inputFields (ds : List Document) : List (String × Document) :=
  if ds.isEmpty then [] else [("inputs", .list ds)]

theorem document_eq (plan : Plan (Option Relation)) :
    plan.document = .object (nodeFields plan ++ inputFields (plan.inputs.map document)) := by
  cases plan <;> simp [document, inputs, inputFields]

variable (plan : Plan (Option Relation)) (ds : List Document)

theorem counts_attribute (a : Attribute) :
    Counts (.object [("name", .text a.name), ("value_count", .integer a.valueCount)]) a where
  names := rfl
  name  := rfl
  count := rfl

theorem estimates_fields :
    Estimates (.object (nodeFields plan ++ inputFields ds)) plan.note := by
  unfold nodeFields
  cases plan.note
  case none   => cases ds <;> exact .none rfl rfl
  case some r =>
    refine .some rfl rfl ?_
    exact List.forall₂_map_left_iff.mpr (List.forall₂_same.mpr fun a _ => counts_attribute a)

theorem heads_fields : Heads (.object (nodeFields plan ++ inputFields ds)) plan where
  operator  := rfl
  estimates := estimates_fields plan ds
  names     := by
    unfold nodeFields
    cases plan.note <;> cases ds <;> simp [Document.fieldNames, statistics, inputFields]

theorem field?_inputs : (Document.object (nodeFields plan ++ inputFields ds)).field? "inputs" =
    if ds.isEmpty then none else some (.list ds) := by
  unfold nodeFields
  cases plan.note <;> cases ds <;> rfl

theorem describes_of_inputs (h : ∀ i ∈ plan.inputs, Describes i.document i) :
    Describes plan.document plan := by
  rw [document_eq]
  exact .node (heads_fields plan _) (field?_inputs plan _) <|
    List.forall₂_map_left_iff.mpr (List.forall₂_same.mpr h)

theorem describes_document : Describes plan.document plan := by
  induction plan
  case scan                   => exact describes_of_inputs _ nofun
  case select hi | project hi => exact describes_of_inputs _ (by simpa [inputs] using hi)
  case product hl hr | join hl hr =>
    exact describes_of_inputs _ (by simpa [inputs] using And.intro hl hr)

theorem remark_fields :
    (Document.object (nodeFields plan ++ inputFields ds)).remark = remark plan.note := by
  unfold nodeFields
  cases plan.note
  case none   => cases ds <;> rfl
  case some r =>
    have ha : r.render = ":".intercalate (toString (r.tupleCount : Int) :: (r.attributes.map fun a =>
        .object [("name", .text a.name), ("value_count", .integer a.valueCount)]).map countText) := by
      rw [List.map_map]
      rfl
    rw [remark, ha]
    rfl

theorem entry_fields (depth : Nat) :
    Document.entry depth (.object (nodeFields plan ++ inputFields ds)) = line depth plan := by
  rw [line, ← remark_fields plan ds]
  rfl

theorem inputListing_fields (depth : Nat) :
    Document.inputListing depth (nodeFields plan ++ inputFields ds) =
      Document.listings depth ds := by
  unfold nodeFields
  cases plan.note <;> cases ds <;> rfl

theorem listing_node (depth : Nat) : plan.document.listing depth =
    line depth plan :: Document.listings (depth + 1) (plan.inputs.map document) := by
  rw [document_eq, Document.listing, inputListing_fields, entry_fields]

theorem listing_document (depth : Nat) : plan.document.listing depth = plan.listing depth := by
  induction plan generalizing depth
  case scan => exact listing_node _ depth
  case select hi | project hi =>
    rw [listing_node]
    simp [inputs, Document.listings, hi, listing]
  case product hl hr | join hl hr =>
    rw [listing_node]
    simp [inputs, Document.listings, hl, hr, listing]

theorem explain_formats (plan : Plan (Option Relation)) :
    Json.Ascii (plan.explain .json) ∧
    Document.ofJson? (plan.explain .json) = some plan.document ∧ Describes plan.document plan ∧
    plan.explain .text = "\n".intercalate (plan.document.listing 0) := by
  refine ⟨?_, ?_, describes_document plan, ?_⟩
  · exact Json.ascii_write Json.plain_indented 0 plan.document
  · exact Json.ofJson?_write Json.plain_indented 0 plan.document
  · rw [explain, listing_document]

end Plan
end QueryPlanner
