import SmartCard.Document.Basic
import SmartCard.Shape.LayoutTree

/-!
Layouts of data fields as documents. Missing fields stand for required tags, strict order, no other
tags and no children.
-/

namespace SmartCard

instance : Documented Tag where
  toDocument tag := .number tag.toNat
  ofDocument? document := (document.natBelow? Tag.numberBound).bind Tag.ofNat?

instance : Documented Requirement where
  toDocument requirement := .text requirement.name
  ofDocument? := Document.oneOf? Requirement.all Requirement.name

instance : Documented SiblingOrder where
  toDocument order := .text order.name
  ofDocument? := Document.oneOf? SiblingOrder.all SiblingOrder.name

namespace TagLayout

def fieldNames : List String :=
  ["tag", "requirement", "order", "allow_unspecified", "children"]

mutual

def write : TagLayout → Document
  | mk tag requirement order allowUnspecified children =>
    .object [("tag", toDocument tag), ("requirement", toDocument requirement),
      ("order", toDocument order), ("allow_unspecified", .flag allowUnspecified),
      ("children", .array (writeAll children))]

def writeAll : List TagLayout → List Document
  | [] => []
  | layout :: rest => layout.write :: writeAll rest

end

def read? (document : Document) : Option TagLayout :=
  match _hfields : Document.fields? fieldNames 1 false document with
  | none => none
  | some fields => do
    let tag ← Document.required? fields "tag"
    let requirement ← Document.fieldOr? fields "requirement" .required
    let order ← Document.fieldOr? fields "order" .strict
    let allowUnspecified ← Document.fieldOr? fields "allow_unspecified" false
    match _hchildren : Document.field? fields "children" with
    | none => return mk tag requirement order allowUnspecified []
    | some (.array items) =>
      let children ← items.attach.mapM fun ⟨item, _⟩ => read? item
      return mk tag requirement order allowUnspecified children
    | some _ => none
termination_by document
decreasing_by
  have hitem := List.sizeOf_lt_of_mem ‹item ∈ items›
  have hfield := Document.sizeOf_of_fields? _hfields _hchildren
  simp only [Document.array.sizeOf_spec] at hfield
  omega

instance : Documented TagLayout where
  toDocument := write
  ofDocument? := read?

end TagLayout

namespace DataLayout

def fieldNames : List String :=
  ["order", "allow_unspecified", "children"]

instance : Documented DataLayout where
  toDocument layout :=
    .object [("order", toDocument layout.order),
      ("allow_unspecified", .flag layout.allowUnspecified),
      ("children", toDocument layout.children)]
  ofDocument? document := do
    let fields ← Document.fields? fieldNames 0 false document
    let order ← Document.fieldOr? fields "order" .strict
    let allowUnspecified ← Document.fieldOr? fields "allow_unspecified" false
    let children ← Document.fieldOr? fields "children" []
    return ⟨order, allowUnspecified, children⟩

end DataLayout

/-- A tree is written without the numbers of its nodes. -/
instance : Documented LayoutTree where
  toDocument tree := toDocument tree.toLayout
  ofDocument? document := (ofDocument? document).map LayoutTree.ofLayout

end SmartCard
