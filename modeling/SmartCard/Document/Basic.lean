import SmartCard.Bytes

/-!
Documents: the values in which descriptions of shapes and of the card state are exchanged, and the
readers that the descriptions share.

A record is an object with named fields, or the array of its fields in order. A case without a
value is written as its name, or as an object that holds nothing under the name.
-/

namespace SmartCard

inductive Document where
  | null
  | flag (value : Bool)
  | number (value : Int)
  | text (value : String)
  | array (items : List Document)
  | object (fields : List (String × Document))

/-- Types whose values can be exchanged as documents. -/
class Documented (α : Type) where
  toDocument : α → Document
  ofDocument? : Document → Option α

export Documented (toDocument ofDocument?)

namespace Document

def flag? : Document → Option Bool
  | flag value => some value
  | _ => none

def text? : Document → Option String
  | text value => some value
  | _ => none

/-- A number from 0 up to but not including `bound`. -/
def natBelow? (bound : Nat) : Document → Option Nat
  | number value => if 0 ≤ value ∧ value < bound then some value.toNat else none
  | _ => none

def byte? (document : Document) : Option UInt8 :=
  (document.natBelow? 256).map UInt8.ofNat

/-- One of several cases without a value, told apart by name. -/
def oneOf? {α : Type} (cases : List α) (name : α → String) : Document → Option α
  | text value => cases.find? (name · = value)
  | object [(key, null)] => cases.find? (name · = key)
  | _ => none

/-- The fields of a record by name. An object may hold others too where `allowOthers` says so; an
array has the fields in order, and only those after the first `least` may be missing at its end. -/
def fields? (names : List String) (least : Nat) (allowOthers : Bool) :
    Document → Option (List (String × Document))
  | object fields =>
    if allowOthers || fields.all (names.contains ·.1) then some fields else none
  | array items =>
    if least ≤ items.length ∧ items.length ≤ names.length then some (names.zip items) else none
  | _ => none

def field? (fields : List (String × Document)) (name : String) : Option Document :=
  (fields.find? (·.1 = name)).map (·.2)

/-- The value of a field, or `default` if the field is missing. -/
def fieldOr? {α : Type} [Documented α] (fields : List (String × Document)) (name : String)
    (default : α) : Option α :=
  match field? fields name with
  | none => some default
  | some document => ofDocument? document

def required? {α : Type} [Documented α] (fields : List (String × Document)) (name : String) :
    Option α :=
  (field? fields name).bind ofDocument?

theorem sizeOf_of_field? {fields : List (String × Document)} {name : String} {document : Document}
    (h : field? fields name = some document) : sizeOf document < sizeOf fields := by
  simp only [field?, Option.map_eq_some_iff] at h
  obtain ⟨⟨key, value⟩, hfind, rfl⟩ := h
  have hmem := List.sizeOf_lt_of_mem (List.mem_of_find?_eq_some hfind)
  simp only [Prod.mk.sizeOf_spec] at hmem
  simp only
  omega

theorem sizeOf_of_mem_zip {names : List String} {items : List Document}
    {name : String} {document : Document} (h : (name, document) ∈ names.zip items) :
    sizeOf document < sizeOf items :=
  List.sizeOf_lt_of_mem (List.of_mem_zip h).2

theorem sizeOf_of_fields? {names : List String} {least : Nat} {allowOthers : Bool}
    {record document : Document} {fields : List (String × Document)} {name : String}
    (hfields : fields? names least allowOthers record = some fields)
    (hfield : field? fields name = some document) : sizeOf document < sizeOf record := by
  cases record with
  | object all =>
    simp only [fields?] at hfields
    split at hfields
    · simp only [Option.some.injEq] at hfields
      have := sizeOf_of_field? hfield
      simp only [object.sizeOf_spec, hfields]
      omega
    · simp at hfields
  | array items =>
    simp only [fields?] at hfields
    split at hfields
    · simp only [Option.some.injEq] at hfields
      subst hfields
      simp only [field?, Option.map_eq_some_iff] at hfield
      obtain ⟨⟨key, value⟩, hfind, rfl⟩ := hfield
      have := sizeOf_of_mem_zip (List.mem_of_find?_eq_some hfind)
      simp only [array.sizeOf_spec]
      omega
    · simp at hfields
  | null | flag | number | text => simp [fields?] at hfields

end Document

instance : Documented Bool where
  toDocument := .flag
  ofDocument? := Document.flag?

instance : Documented String where
  toDocument := .text
  ofDocument? := Document.text?

instance : Documented UInt8 where
  toDocument byte := .number byte.toNat
  ofDocument? := Document.byte?

instance {α : Type} [Documented α] : Documented (List α) where
  toDocument items := .array (items.map toDocument)
  ofDocument?
    | .array items => items.mapM ofDocument?
    | _ => none

instance {α : Type} [Documented α] : Documented (Option α) where
  toDocument value := value.elim .null toDocument
  ofDocument?
    | .null => some none
    | document => (ofDocument? document).map some

end SmartCard
