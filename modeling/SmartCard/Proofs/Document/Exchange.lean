import SmartCard.Proofs.Document.Lawful
import SmartCard.Proofs.Layout.Likeness

/-!
# Shapes that are exchanged as documents

The nodes of a layout tree are numbered anew when the tree is read, so that a shape need not come
back as it was. It comes back as one that gives the same verdicts; and what was read once does not
change any more, since its nodes have the numbers that reading gives them.
-/

namespace SmartCard

namespace LayoutTree

/-- The tree with its nodes numbered in the order in which its layout lists them. -/
def renumbered (tree : LayoutTree) : LayoutTree :=
  ofLayout tree.toLayout

theorem renumbered_ofLayout (layout : DataLayout) :
    (ofLayout layout).renumbered = ofLayout layout := by
  obtain ⟨horder, hallow, hchildren⟩ := root_ofLayout layout
  rw [renumbered, toLayout, horder, hallow, hchildren]

theorem Built.isEmpty_renumbered {tree : LayoutTree} (built : Built tree) :
    tree.renumbered.isEmpty = tree.isEmpty :=
  (alike_ofLayout_toLayout tree).isEmpty_children (built_ofLayout _).wellFormed built.wellFormed

theorem Built.verdict_renumbered {tree : LayoutTree} (built : Built tree) (objects : List Object) :
    tree.renumbered.verdict objects = tree.verdict objects :=
  (alike_ofLayout_toLayout tree).verdict_eq (built_ofLayout _) built objects

theorem ofDocument?_toDocument (tree : LayoutTree) :
    ofDocument? (toDocument tree) = some tree.renumbered := by
  have hread : (ofDocument? (toDocument tree) : Option LayoutTree) =
      (ofDocument? (toDocument tree.toLayout)).map ofLayout := rfl
  rw [hread, read_write, Option.map_some, renumbered]

end LayoutTree

namespace Shape

theorem ofDocument?_eq (document : Document) :
    ofDocument? document = do
      let fields ← Document.fields? fieldNames 1 false document
      let id ← Document.required? fields "id"
      let format ← Document.fieldOr? fields "format" .optional
      let chaining ← Document.fieldOr? fields "chaining" .optional
      let secureMessaging ← Document.fieldOr? fields "secure_messaging" .optional
      let channel ← Document.fieldOr? fields "channel" .optional
      let ins ← Document.fieldOr? fields "ins" .optional
      let p1 ← Document.fieldOr? fields "p1" .optional
      let p2 ← Document.fieldOr? fields "p2" .optional
      let case ← Document.fieldOr? fields "case" .optional
      let extendedLength ← Document.fieldOr? fields "extended_length" .optional
      let tags ← Document.fieldOr? fields "tags" none
      return mk id format chaining secureMessaging channel ins p1 p2 case extendedLength tags :=
  rfl

/-! ### Reading what was written -/

theorem ofDocument?_tags (tags : Option LayoutTree) :
    ofDocument? (toDocument tags) = some (tags.map LayoutTree.renumbered) := by
  cases tags with
  | none => rfl
  | some tree =>
    have hread : (ofDocument? (toDocument (some tree)) : Option (Option LayoutTree)) =
        (ofDocument? (toDocument tree)).map some := rfl
    rw [hread, tree.ofDocument?_toDocument]
    rfl

/-- A shape comes back with its tree numbered anew and is the same otherwise. -/
theorem ofDocument?_toDocument (shape : Shape) :
    ofDocument? (toDocument shape) =
      some { shape with tags := shape.tags.map LayoutTree.renumbered } := by
  let fields : List (String × Document) :=
    [("id", toDocument shape.id), ("format", toDocument shape.format),
      ("chaining", toDocument shape.chaining),
      ("secure_messaging", toDocument shape.secureMessaging),
      ("channel", toDocument shape.channel), ("ins", toDocument shape.ins),
      ("p1", toDocument shape.p1), ("p2", toDocument shape.p2), ("case", toDocument shape.case),
      ("extended_length", toDocument shape.extendedLength), ("tags", toDocument shape.tags)]
  have record : Document.Record fieldNames fields := ⟨rfl, by decide⟩
  have hwritten : toDocument shape = .object fields := rfl
  rw [hwritten, ofDocument?_eq]
  exact bind_eq_some_of_eq (record.fields?_object 1 false) <|
    bind_eq_some_of_eq (record.required?_of_mem (by simp [fields]) (read_write shape.id)) <|
    bind_eq_some_of_eq (record.fieldOr?_of_mem (by simp [fields]) (read_write shape.format) _) <|
    bind_eq_some_of_eq (record.fieldOr?_of_mem (by simp [fields]) (read_write shape.chaining) _) <|
    bind_eq_some_of_eq
      (record.fieldOr?_of_mem (by simp [fields]) (read_write shape.secureMessaging) _) <|
    bind_eq_some_of_eq (record.fieldOr?_of_mem (by simp [fields]) (read_write shape.channel) _) <|
    bind_eq_some_of_eq (record.fieldOr?_of_mem (by simp [fields]) (read_write shape.ins) _) <|
    bind_eq_some_of_eq (record.fieldOr?_of_mem (by simp [fields]) (read_write shape.p1) _) <|
    bind_eq_some_of_eq (record.fieldOr?_of_mem (by simp [fields]) (read_write shape.p2) _) <|
    bind_eq_some_of_eq (record.fieldOr?_of_mem (by simp [fields]) (read_write shape.case) _) <|
    bind_eq_some_of_eq
      (record.fieldOr?_of_mem (by simp [fields]) (read_write shape.extendedLength) _) <|
    bind_eq_some_of_eq
      (record.fieldOr?_of_mem (by simp [fields]) (ofDocument?_tags shape.tags) _) rfl

theorem verdict_renumbered {shape : Shape} (built : ∀ tree, shape.tags = some tree → tree.Built)
    (handle : Handle) :
    { shape with tags := shape.tags.map LayoutTree.renumbered }.verdict handle =
      shape.verdict handle := by
  have hdata : dataViolation? (shape.tags.map LayoutTree.renumbered) handle.command.data =
      dataViolation? shape.tags handle.command.data := by
    cases htags : shape.tags with
    | none => rfl
    | some tree =>
      have hbuilt := built tree htags
      simp only [Option.map_some, dataViolation?, hbuilt.isEmpty_renumbered,
        hbuilt.verdict_renumbered]
  have hviolation :
      { shape with tags := shape.tags.map LayoutTree.renumbered }.violation? handle =
        shape.violation? handle := by
    funext check
    cases check with
    | dataField => exact hdata
    | _ => rfl
  rw [verdict, verdict, hviolation]

/-! ### Writing what was read -/

theorem renumbered_of_ofDocument?_tags {document : Document} {tags : Option LayoutTree}
    (h : ofDocument? document = some tags) : tags.map LayoutTree.renumbered = tags := by
  have hread : tags = none ∨ ∃ layout, tags = some (LayoutTree.ofLayout layout) := by
    cases document with
    | null => exact .inl (Option.some.inj h).symm
    | flag | number | text | array | object =>
      obtain ⟨tree, htree, rfl⟩ := Option.map_eq_some_iff.mp h
      obtain ⟨layout, _, rfl⟩ := Option.map_eq_some_iff.mp htree
      exact .inr ⟨layout, rfl⟩
  rcases hread with rfl | ⟨layout, rfl⟩
  · rfl
  · rw [Option.map_some, LayoutTree.renumbered_ofLayout]

/-- The tree of a shape that was read has the numbers that reading gives. -/
theorem renumbered_of_ofDocument? {document : Document} {shape : Shape}
    (h : ofDocument? document = some shape) :
    shape.tags.map LayoutTree.renumbered = shape.tags := by
  rw [ofDocument?_eq] at h
  simp only [Option.bind_eq_bind, Option.bind_eq_some_iff] at h
  obtain ⟨fields, _, id, _, format, _, chaining, _, secureMessaging, _, channel, _, ins, _, p1, _,
    p2, _, case, _, extendedLength, _, tags, htags, hshape⟩ := h
  obtain rfl := Option.some.inj hshape
  rw [Document.fieldOr?] at htags
  split at htags
  · obtain rfl := Option.some.inj htags
    rfl
  · exact renumbered_of_ofDocument?_tags htags

/-- Shapes mean what they meant after they were written and read, and those that were read stay as
they are. -/
theorem verdict_of_exchange :
    (∀ shape : Shape, (∀ tree, shape.tags = some tree → tree.Built) →
      ∃ read : Shape, ofDocument? (toDocument shape) = some read ∧
        read = { shape with tags := read.tags } ∧
        ∀ handle, read.verdict handle = shape.verdict handle) ∧
    ∀ (document : Document) (shape : Shape), ofDocument? document = some shape →
      ∃ again : Shape, ofDocument? (toDocument shape) = some again ∧ again = shape ∧
        (toDocument again : Document) = toDocument shape := by
  constructor
  · intro shape built
    exact ⟨_, ofDocument?_toDocument shape, rfl, verdict_renumbered built⟩
  · intro document shape hread
    refine ⟨shape, ?_, rfl, rfl⟩
    rw [ofDocument?_toDocument, renumbered_of_ofDocument? hread]

/-- The shape of `INS` `22` with a data field whose tree comes back with other numbers. -/
def lateShape : Shape :=
  { any "late" with ins := .required 0x22, tags := some LayoutTree.lateTree }

def sparseInner : Document :=
  .object [("tag", .number 0x80), ("requirement", .text "Optional")]

def sparseOuter : Document :=
  .object [("tag", .number 0x7F49), ("children", .array [sparseInner])]

def sparseTags : Document :=
  .object [("order", .text "Arbitrary"), ("children", .array [sparseOuter])]

/-- A document without the fields that say what holds anyway. -/
def sparseDocument : Document :=
  .object [("id", .text "sparse"), ("secure_messaging", .object [("Forbidden", .text "None")]),
    ("ins", .object [("Required", .number 0x22)]), ("case", .object [("Required", .text "Case3")]),
    ("tags", sparseTags)]

def sparseLayout : TagLayout :=
  (TagLayout.leaf ⟨[0x7F, 0x49], rfl⟩ .required).withChildren [.leaf (.context 0#4) .optional]

/-- What the document describes. -/
def sparseShape : Shape :=
  { any "sparse" with
    secureMessaging := .forbidden .plain
    ins := .required 0x22
    case := .required .case3
    tags := some (.ofLayout ⟨.arbitrary, false, [sparseLayout]⟩) }

theorem ofDocument?_sparseDocument : ofDocument? sparseDocument = some sparseShape := by
  have hinner : ofDocument? sparseInner = some (TagLayout.leaf (.context 0#4) .optional) := by
    rw [TagLayout.ofDocument?_eq]
    rfl
  have houter : ofDocument? sparseOuter = some sparseLayout := by
    rw [TagLayout.ofDocument?_eq]
    exact congrArg (· >>= fun children => some (sparseLayout.withChildren children))
      (Document.ofDocument?_singleton hinner)
  have hlayout : ofDocument? sparseTags = some (DataLayout.mk .arbitrary false [sparseLayout]) :=
    congrArg (· >>= fun children => some (DataLayout.mk .arbitrary false children))
      (Document.ofDocument?_singleton houter)
  have htags : ofDocument? sparseTags = some sparseShape.tags :=
    congrArg (fun read => (read.map LayoutTree.ofLayout).map some) hlayout
  exact congrArg (· >>= fun tags => some { sparseShape with tags := tags }) htags

theorem verdict_of_exchange_lateShape :
    (∃ read : Shape, ofDocument? (toDocument lateShape) = some read ∧
      read = { lateShape with tags := read.tags } ∧
      ∀ handle, read.verdict handle = lateShape.verdict handle) ∧
    ofDocument? sparseDocument = some sparseShape ∧
    ∃ again : Shape, ofDocument? (toDocument sparseShape) = some again ∧ again = sparseShape ∧
      (toDocument again : Document) = toDocument sparseShape := by
  have hbuilt : ∀ tree, lateShape.tags = some tree → tree.Built := by
    rintro tree ⟨⟩
    exact LayoutTree.built_lateTree
  obtain ⟨hverdict, hstable⟩ := verdict_of_exchange
  exact ⟨hverdict lateShape hbuilt, ofDocument?_sparseDocument,
    hstable _ _ ofDocument?_sparseDocument⟩

end Shape

end SmartCard
