import Mathlib.Data.List.Nodup
import SmartCard.Document.Shape
import SmartCard.Proofs.Tlv.Header

/-!
# Values that survive being written

A type is lawful if each of its values is read back from the document that it is written as. For
cases that are told apart by name this rests on the names, for tags on their numbers, and for
records on the names of their fields.
-/

namespace SmartCard

/-- Types whose values are read back from the documents that they are written as. -/
class LawfulDocumented (α : Type) [Documented α] : Prop where
  read_write (value : α) : ofDocument? (toDocument value) = some value

export LawfulDocumented (read_write)

namespace Document

theorem oneOf?_name {α : Type} {cases : List α} {name : α → String}
    (hnames : (cases.map name).Nodup) {value : α} (hvalue : value ∈ cases) :
    oneOf? cases name (.text (name value)) = some value := by
  have hsome : (cases.find? (name · = name value)).isSome :=
    List.find?_isSome.mpr ⟨value, hvalue, decide_eq_true rfl⟩
  obtain ⟨found, hfound⟩ := Option.isSome_iff_exists.mp hsome
  have hname : name found = name value := by simpa using List.find?_some hfound
  have hsame : found = value :=
    List.inj_on_of_nodup_map hnames (List.mem_of_find?_eq_some hfound) hvalue hname
  rw [oneOf?, hfound, hsame]

theorem natBelow?_number {bound value : Nat} (h : value < bound) :
    natBelow? bound (.number value) = some value := by
  have hrange : (0 : Int) ≤ value ∧ (value : Int) < bound := by omega
  rw [natBelow?, if_pos hrange, Int.toNat_natCast]

theorem natBelow?_eq_some_iff {bound value : Nat} {document : Document} :
    natBelow? bound document = some value ↔ document = .number value ∧ value < bound := by
  constructor
  · intro h
    cases document with
    | number found =>
      simp only [natBelow?] at h
      split at h
      · next hrange =>
        obtain rfl := Option.some.inj h
        have hfound : (found.toNat : Int) = found := Int.toNat_of_nonneg hrange.1
        exact ⟨by rw [hfound], by omega⟩
      · simp at h
    | null | flag | text | array | object => simp [natBelow?] at h
  · rintro ⟨rfl, hvalue⟩
    exact natBelow?_number hvalue

/-! ### Records -/

/-- The fields of a record, each of them under a name of its own. -/
structure Record (names : List String) (fields : List (String × Document)) : Prop where
  names_eq : fields.map (·.1) = names
  distinct : names.Nodup

namespace Record

variable {names : List String} {fields : List (String × Document)} (record : Record names fields)

include record

theorem fields?_object (least : Nat) (allowOthers : Bool) :
    fields? names least allowOthers (.object fields) = some fields := by
  have hall : fields.all (names.contains ·.1) := by
    rw [List.all_eq_true]
    intro field hfield
    rw [List.contains_iff_mem, ← record.names_eq]
    exact List.mem_map_of_mem hfield
  rw [fields?, hall, Bool.or_true, if_pos rfl]

theorem field?_of_mem {name : String} {document : Document} (hmem : (name, document) ∈ fields) :
    field? fields name = some document := by
  have hdistinct : (fields.map (·.1)).Nodup := by
    rw [record.names_eq]
    exact record.distinct
  have hsome : (fields.find? (·.1 = name)).isSome :=
    List.find?_isSome.mpr ⟨(name, document), hmem, decide_eq_true rfl⟩
  obtain ⟨found, hfound⟩ := Option.isSome_iff_exists.mp hsome
  have hname : found.1 = name := by simpa using List.find?_some hfound
  have hsame : found = (name, document) :=
    List.inj_on_of_nodup_map hdistinct (List.mem_of_find?_eq_some hfound) hmem hname
  rw [field?, hfound, hsame, Option.map_some]

variable {α : Type} [Documented α] {name : String} {document : Document} {value : α}
  (hmem : (name, document) ∈ fields) (hread : ofDocument? document = some value)

include hmem hread

theorem required?_of_mem : required? fields name = some value := by
  rw [required?, record.field?_of_mem hmem, Option.bind_some, hread]

theorem fieldOr?_of_mem (default : α) : fieldOr? fields name default = some value := by
  rw [fieldOr?, record.field?_of_mem hmem]
  exact hread

end Record

end Document

/-! ### Values without parts -/

instance : LawfulDocumented Bool where
  read_write _ := rfl

instance : LawfulDocumented String where
  read_write _ := rfl

theorem Document.ofDocument?_byte (document : Document) :
    (ofDocument? document : Option UInt8) = (document.natBelow? 256).map UInt8.ofNat :=
  rfl

instance : LawfulDocumented UInt8 where
  read_write byte := by
    have hnumber : Document.natBelow? 256 (toDocument byte) = some byte.toNat :=
      Document.natBelow?_number byte.toNat_lt
    rw [Document.ofDocument?_byte, hnumber, Option.map_some, UInt8.ofNat_toNat]

theorem Document.ofDocument?_tag (document : Document) :
    (ofDocument? document : Option Tag) = (document.natBelow? Tag.numberBound).bind Tag.ofNat? :=
  rfl

instance : LawfulDocumented Tag where
  read_write tag := by
    have hnumber : Document.natBelow? Tag.numberBound (toDocument tag) = some tag.toNat :=
      Document.natBelow?_number tag.toNat_lt
    rw [Document.ofDocument?_tag, hnumber, Option.bind_some, tag.ofNat?_toNat]

instance : LawfulDocumented Requirement where
  read_write requirement := Document.oneOf?_name (by decide) (by cases requirement <;> decide)

instance : LawfulDocumented SiblingOrder where
  read_write order := Document.oneOf?_name (by decide) (by cases order <;> decide)

instance : LawfulDocumented Format where
  read_write format := Document.oneOf?_name (by decide) (by cases format <;> decide)

instance : LawfulDocumented SecureMessaging where
  read_write mode := Document.oneOf?_name (by decide) (by cases mode <;> decide)

instance : LawfulDocumented Case where
  read_write case := Document.oneOf?_name (by decide) (by cases case <;> decide)

/-! ### Values made of others -/

section

variable {α : Type} [Documented α]

theorem Document.ofDocument?_array (items : List Document) :
    (ofDocument? (.array items) : Option (List α)) = items.mapM ofDocument? :=
  rfl

theorem Document.ofDocument?_singleton {item : Document} {value : α}
    (h : ofDocument? item = some value) : ofDocument? (.array [item]) = some [value] := by
  rw [Document.ofDocument?_array, List.mapM_cons, h]
  rfl

variable [LawfulDocumented α]

instance : LawfulDocumented (Constraint α) where
  read_write
    | .optional => rfl
    | .required value => congrArg (Option.map Constraint.required) (read_write value)
    | .forbidden value => congrArg (Option.map Constraint.forbidden) (read_write value)

instance : LawfulDocumented (List α) where
  read_write items := by
    have hitems : (items.map toDocument).mapM ofDocument? = some items := by
      induction items with
      | nil => rfl
      | cons item rest ih =>
        rw [List.map_cons, List.mapM_cons, read_write, ih]
        rfl
    exact (Document.ofDocument?_array _).trans hitems

end

/-! ### Layouts -/

theorem bind_eq_some_of_eq {α β : Type} {read : Option α} {next : α → Option β} {value : α}
    {result : β} (hread : read = some value) (hnext : next value = some result) :
    read >>= next = some result :=
  Option.bind_eq_some_iff.mpr ⟨value, hread, hnext⟩

namespace TagLayout

/-- A layout is read field by field; its children are a list like any other. -/
theorem ofDocument?_eq (document : Document) :
    ofDocument? document = do
      let fields ← Document.fields? fieldNames 1 false document
      let tag ← Document.required? fields "tag"
      let requirement ← Document.fieldOr? fields "requirement" .required
      let order ← Document.fieldOr? fields "order" .strict
      let allowUnspecified ← Document.fieldOr? fields "allow_unspecified" false
      let children ← Document.fieldOr? fields "children" []
      return mk tag requirement order allowUnspecified children := by
  change read? document = _
  rw [read?]
  cases Document.fields? fieldNames 1 false document with
  | none => rfl
  | some fields =>
    refine Option.bind_congr fun tag _ => Option.bind_congr fun requirement _ =>
      Option.bind_congr fun order _ => Option.bind_congr fun allowUnspecified _ => ?_
    rw [Document.fieldOr?]
    split
    next hnone =>
      rw [hnone]
      rfl
    next items hitems =>
      -- reading attaches the children to show that it ends
      have hread : items.attach.mapM (fun item => read? item.1) = items.mapM read? := by
        rw [List.mapM_subtype (g := read?) fun _ _ => rfl, List.unattach_attach]
      rw [hitems, hread]
      rfl
    next other hother hchildren =>
      rw [hchildren]
      cases other with
      | array items => exact absurd rfl (hother items)
      | null | flag | number | text | object => rfl

mutual

theorem read_write_layout : (layout : TagLayout) → ofDocument? (toDocument layout) = some layout
  | .mk tag requirement order allowUnspecified children => by
    let fields : List (String × Document) :=
      [("tag", toDocument tag), ("requirement", toDocument requirement),
        ("order", toDocument order), ("allow_unspecified", toDocument allowUnspecified),
        ("children", .array (writeAll children))]
    have record : Document.Record fieldNames fields := ⟨rfl, by decide⟩
    have hwritten : toDocument (mk tag requirement order allowUnspecified children) =
        .object fields := by
      change write _ = _
      rw [write]
      rfl
    have hchildren : ofDocument? (.array (writeAll children)) = some children :=
      (Document.ofDocument?_array _).trans (read_write_layouts children)
    rw [hwritten, ofDocument?_eq]
    exact bind_eq_some_of_eq (record.fields?_object 1 false) <|
      bind_eq_some_of_eq (record.required?_of_mem (by simp [fields]) (read_write tag)) <|
      bind_eq_some_of_eq (record.fieldOr?_of_mem (by simp [fields]) (read_write requirement) _) <|
      bind_eq_some_of_eq (record.fieldOr?_of_mem (by simp [fields]) (read_write order) _) <|
      bind_eq_some_of_eq
        (record.fieldOr?_of_mem (by simp [fields]) (read_write allowUnspecified) _) <|
      bind_eq_some_of_eq (record.fieldOr?_of_mem (by simp [fields]) hchildren _) rfl

theorem read_write_layouts :
    (layouts : List TagLayout) → (writeAll layouts).mapM ofDocument? = some layouts
  | [] => by
    rw [writeAll]
    rfl
  | layout :: rest => by
    have hfirst : ofDocument? layout.write = some layout := read_write_layout layout
    rw [writeAll, List.mapM_cons, hfirst, read_write_layouts rest]
    rfl

end

instance : LawfulDocumented TagLayout where
  read_write := read_write_layout

end TagLayout

namespace DataLayout

theorem ofDocument?_eq (document : Document) :
    ofDocument? document = do
      let fields ← Document.fields? fieldNames 0 false document
      let order ← Document.fieldOr? fields "order" .strict
      let allowUnspecified ← Document.fieldOr? fields "allow_unspecified" false
      let children ← Document.fieldOr? fields "children" []
      return mk order allowUnspecified children :=
  rfl

instance : LawfulDocumented DataLayout where
  read_write layout := by
    let fields : List (String × Document) :=
      [("order", toDocument layout.order),
        ("allow_unspecified", toDocument layout.allowUnspecified),
        ("children", toDocument layout.children)]
    have record : Document.Record fieldNames fields := ⟨rfl, by decide⟩
    have hwritten : toDocument layout = .object fields := rfl
    rw [hwritten, ofDocument?_eq]
    exact bind_eq_some_of_eq (record.fields?_object 0 false) <|
      bind_eq_some_of_eq (record.fieldOr?_of_mem (by simp [fields]) (read_write layout.order) _) <|
      bind_eq_some_of_eq
        (record.fieldOr?_of_mem (by simp [fields]) (read_write layout.allowUnspecified) _) <|
      bind_eq_some_of_eq
        (record.fieldOr?_of_mem (by simp [fields]) (read_write layout.children) _) rfl

end DataLayout

end SmartCard
