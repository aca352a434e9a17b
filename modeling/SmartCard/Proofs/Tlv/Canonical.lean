import SmartCard.Proofs.Tlv.Grammar

/-!
# Writing data objects and reading them back

Among the byte strings that stand for the same data objects, the written one has the shortest
length field for every content. It is read back as these objects exactly if every tag announces
the content that it has, every content is short enough for a length field, and nothing is nested
too deeply; whatever has been read meets all of this.
-/

namespace SmartCard.Object

/-- What it takes for a data object at a level of nesting to be read back. -/
inductive Faithful : Nat → Object → Prop
  | primitive {level : Nat} {tag : Tag} {value : Bytes} (hbit : tag.isConstructed = false)
      (hlength : value.length < 0x1000000) : Faithful level (.primitive tag value)
  | constructed {level : Nat} {tag : Tag} {children : List Object}
      (hbit : tag.isConstructed = true) (hlength : (encodeAll children).length < 0x1000000)
      (hlevel : level ≤ 15) (hchildren : ∀ child ∈ children, Faithful (level + 1) child) :
      Faithful level (.constructed tag children)

/-- The tag tells what kind of content there is. -/
theorem Faithful.eq_primitive {level : Nat} {object : Object} (faithful : Faithful level object)
    (hbit : object.tag.isConstructed = false) : ∃ value, object = .primitive object.tag value := by
  cases faithful with
  | primitive => exact ⟨_, rfl⟩
  | constructed hother => exact absurd (hbit.symm.trans hother) (by decide)

theorem Faithful.eq_constructed {level : Nat} {object : Object} (faithful : Faithful level object)
    (hbit : object.tag.isConstructed = true) :
    object = .constructed object.tag object.children ∧
      ∀ child ∈ object.children, Faithful (level + 1) child := by
  cases faithful with
  | primitive hother => exact absurd (hbit.symm.trans hother) (by decide)
  | constructed _ _ _ hchildren => exact ⟨rfl, hchildren⟩

/-! ### Written objects are spelled with the shortest fields -/

/-- In front of what stands for data objects, a written object stands for itself. -/
theorem Faithful.spells_append {level : Nat} {object : Object} (faithful : Faithful level object)
    {rest : Bytes} {objects : List Object} (hrest : Spells Length.Shortest level rest objects) :
    Spells Length.Shortest level (object.encode ++ rest) (object :: objects) := by
  induction faithful generalizing rest objects with
  | @primitive level tag value hbit hlength =>
    obtain ⟨first, more, htag⟩ := tag.exists_form
    rw [htag.isConstructed_eq] at hbit
    rw [encode, List.append_assoc, List.append_assoc]
    exact .primitive htag (by simpa using hbit) (Length.shortest_iff.mpr ⟨hlength, rfl⟩) hrest
  | @constructed level tag children hbit hlength hlevel hchildren ih =>
    obtain ⟨first, more, htag⟩ := tag.exists_form
    rw [htag.isConstructed_eq] at hbit
    have hcontent : Spells Length.Shortest (level + 1) (encodeAll children) children := by
      clear hlength hchildren
      induction children with
      | nil => exact .nil
      | cons child others ihothers =>
        exact ih child List.mem_cons_self
          (ihothers fun other hother => ih other (List.mem_cons_of_mem _ hother))
    rw [encode, List.append_assoc, List.append_assoc]
    exact .constructed htag (by simpa using hbit) hlevel (Length.shortest_iff.mpr ⟨hlength, rfl⟩)
      hcontent hrest

theorem spells_encodeAll {level : Nat} {objects : List Object}
    (faithful : ∀ object ∈ objects, Faithful level object) :
    Spells Length.Shortest level (encodeAll objects) objects := by
  induction objects with
  | nil => exact .nil
  | cons object objects ih =>
    exact (faithful object List.mem_cons_self).spells_append
      (ih fun other hother => faithful other (List.mem_cons_of_mem _ hother))

/-- The bytes with the shortest fields are those that are written. -/
theorem Spells.encodeAll_eq {level : Nat} {bytes : Bytes} {objects : List Object}
    (spells : Spells Length.Shortest level bytes objects) : encodeAll objects = bytes := by
  induction spells with
  | nil => rfl
  | primitive htag hbit hfield _ ih =>
    obtain ⟨-, rfl⟩ := Length.shortest_iff.mp hfield
    rw [encodeAll, encode, ih, List.append_assoc, List.append_assoc]
  | constructed htag hbit hlevel hfield _ _ ihcontent ihrest =>
    obtain ⟨-, rfl⟩ := Length.shortest_iff.mp hfield
    rw [encodeAll, encode, ihcontent, ihrest, List.append_assoc, List.append_assoc]

/-! ### Whatever is spelled can be written -/

/-- Writing again never takes more bytes: contents do not grow, and so their fields do not. -/
theorem Spells.length_encodeAll_le {level : Nat} {bytes : Bytes} {objects : List Object}
    (spells : Spells Length.Form level bytes objects) :
    (encodeAll objects).length ≤ bytes.length := by
  induction spells with
  | nil => exact Nat.le_refl _
  | primitive htag hbit hfield _ ih =>
    have hshort := hfield.length_encode_le
    simp only [encodeAll, encode, List.length_append]
    omega
  | constructed htag hbit hlevel hfield _ _ ihcontent ihrest =>
    have hshort := Nat.le_trans (Length.length_encode_mono ihcontent) hfield.length_encode_le
    simp only [encodeAll, encode, List.length_append]
    omega

theorem Spells.faithful {level : Nat} {bytes : Bytes} {objects : List Object}
    (spells : Spells Length.Form level bytes objects) :
    ∀ object ∈ objects, Faithful level object := by
  induction spells with
  | nil => simp
  | primitive htag hbit hfield _ ih =>
    have hbit := htag.isConstructed_eq.trans (decide_eq_false (not_not_intro hbit))
    exact List.forall_mem_cons.mpr ⟨.primitive hbit hfield.lt, ih⟩
  | constructed htag hbit hlevel hfield hcontent _ ihcontent ihrest =>
    have hbit := htag.isConstructed_eq.trans (decide_eq_true hbit)
    have hlength := Nat.lt_of_le_of_lt hcontent.length_encodeAll_le hfield.lt
    exact List.forall_mem_cons.mpr ⟨.constructed hbit hlength hlevel ihcontent, ihrest⟩

/-! ### Reading back -/

theorem decodeAll_encodeAll {objects : List Object}
    (faithful : ∀ object ∈ objects, Faithful 1 object) :
    decodeAll (encodeAll objects) = .ok objects :=
  decodeAll_eq_ok_iff.mpr ((spells_encodeAll faithful).mono fun _ _ shortest => shortest.form)

/-- Written objects are read back exactly if every one of them, nested ones included, has a tag
for its kind of content, a content of less than 2^24 bytes, and not too many levels around it. -/
theorem decodeAll_encodeAll_eq_ok_iff (objects : List Object) :
    decodeAll (encodeAll objects) = .ok objects ↔ ∀ object ∈ objects, Faithful 1 object :=
  ⟨fun h => (decodeAll_eq_ok_iff.mp h).faithful, decodeAll_encodeAll⟩

/-- Writing what was read keeps its meaning, takes no more bytes, and gives the same bytes exactly
if these have the shortest length field for every content. -/
theorem encodeAll_canonical {bytes : Bytes} {objects : List Object}
    (h : decodeAll bytes = .ok objects) :
    decodeAll (encodeAll objects) = .ok objects ∧ (encodeAll objects).length ≤ bytes.length ∧
      (encodeAll objects = bytes ↔ Spells Length.Shortest 1 bytes objects) := by
  have spells := decodeAll_eq_ok_iff.mp h
  refine ⟨decodeAll_encodeAll spells.faithful, spells.length_encodeAll_le, ?_, ?_⟩
  · intro hbytes
    have hshortest := spells_encodeAll spells.faithful
    rwa [hbytes] at hshortest
  · exact Spells.encodeAll_eq

/-- Two length fields, one within the content of the other, that are both longer than need be. -/
theorem encodeAll_canonical_nested :
    let object := Object.constructed ⟨[0x7C], rfl⟩ [.primitive (.context 0#4) [0x05]]
    let bytes : Bytes := [0x7C, 0x82, 0x00, 0x04, 0x80, 0x81, 0x01, 0x05]
    decodeAll bytes = .ok [object] ∧ decodeAll [0x7C, 0x03, 0x80, 0x01, 0x05] = .ok [object] ∧
      ¬ Spells Length.Shortest 1 bytes [object] := by
  intro object bytes
  have h : decodeAll bytes = .ok [object] := by cbv
  have hwritten : encodeAll [object] = [0x7C, 0x03, 0x80, 0x01, 0x05] := by decide
  obtain ⟨hback, -, hshortest⟩ := encodeAll_canonical h
  rw [hwritten] at hback hshortest
  exact ⟨h, hback, fun spells => absurd (hshortest.mpr spells) (by decide)⟩

end SmartCard.Object
