import SmartCard.Document.Layout
import SmartCard.Shape.Basic

/-!
Shapes of commands as documents. Missing fields are unconstrained.
-/

namespace SmartCard

instance : Documented Format where
  toDocument format := .text format.name
  ofDocument? := Document.oneOf? Format.all Format.name

instance : Documented SecureMessaging where
  toDocument mode := .text mode.name
  ofDocument? := Document.oneOf? SecureMessaging.all SecureMessaging.name

instance : Documented Case where
  toDocument case := .text case.name
  ofDocument? := Document.oneOf? Case.all Case.name

namespace Constraint

/-- An optional constraint is written as its name, any other with its value. -/
def write {α : Type} [Documented α] : Constraint α → Document
  | optional => .text "Optional"
  | required value => .object [("Required", toDocument value)]
  | forbidden value => .object [("Forbidden", toDocument value)]

def read? {α : Type} [Documented α] : Document → Option (Constraint α)
  | .text name => if name = "Optional" then some optional else none
  | .object [(key, value)] =>
    if key = "Required" then (ofDocument? value).map required
    else if key = "Forbidden" then (ofDocument? value).map forbidden
    else if key = "Optional" then
      match value with
      | .null => some optional
      | _ => none
    else none
  | _ => none

instance {α : Type} [Documented α] : Documented (Constraint α) where
  toDocument := write
  ofDocument? := read?

end Constraint

namespace Shape

def fieldNames : List String :=
  ["id", "format", "chaining", "secure_messaging", "channel", "ins", "p1", "p2", "case",
    "extended_length", "tags"]

instance : Documented Shape where
  toDocument shape :=
    .object [("id", .text shape.id), ("format", toDocument shape.format),
      ("chaining", toDocument shape.chaining),
      ("secure_messaging", toDocument shape.secureMessaging),
      ("channel", toDocument shape.channel), ("ins", toDocument shape.ins),
      ("p1", toDocument shape.p1), ("p2", toDocument shape.p2), ("case", toDocument shape.case),
      ("extended_length", toDocument shape.extendedLength), ("tags", toDocument shape.tags)]
  ofDocument? document := do
    let fields ← Document.fields? fieldNames 1 false document
    let id ← Document.required? fields "id"
    let format ← Document.fieldOr? fields "format" .optional
    let chaining ← Document.fieldOr? fields "chaining" .optional
    let secureMessaging ← Document.fieldOr? fields "secure_messaging" .optional
    let channel ← Document.fieldOr? fields "channel" .optional
    let ins ← Document.fieldOr? fields "ins" .optional
    let p1 ← Document.fieldOr? fields "p1" .optional
    let p2 ← Document.fieldOr? fields "p2" .optional
    let case ← Document.fieldOr? fields "case" .optional
    let extendedLength ← Document.fieldOr? fields "extended_length" .optional
    let tags ← Document.fieldOr? fields "tags" none
    return ⟨id, format, chaining, secureMessaging, channel, ins, p1, p2, case, extendedLength,
      tags⟩

/-- A shape with one field replaced by what a document describes. -/
def replace? (shape : Shape) (name : String) (document : Document) : Option Shape :=
  match toDocument shape with
  | .object fields =>
    ofDocument? (.object (fields.map fun (key, value) =>
      (key, if key = name then document else value)))
  | _ => none

end Shape

end SmartCard
