import SmartCard.Proofs.Tlv.Header
import SmartCard.Tlv.Decode

/-!
# The grammar of data objects

`Object.Spells` says which bytes stand for which data objects, as a grammar: tag, length field and
content, one object behind the other, where the content of a constructed object is spelled in the
same way one level further inwards. Which length fields it admits is a parameter. Reading a byte
string decides the grammar that admits every length field.
-/

namespace SmartCard

namespace Element

theorem take?_append (element : Element) {field : Bytes}
    (form : Length.Form element.content.length field) (rest : Bytes) :
    take? (element.tag.bytes ++ (field ++ (element.content ++ rest))) = some (element, rest) := by
  simp only [take?, Tag.take?_append, form.take?_append, Bytes.cut?_append]

theorem exists_form_of_take? {bytes rest : Bytes} {element : Element}
    (h : take? bytes = some (element, rest)) :
    ∃ field, Length.Form element.content.length field ∧
      bytes = element.tag.bytes ++ (field ++ (element.content ++ rest)) := by
  simp only [take?] at h
  split at h
  · simp at h
  · next tag afterTag htag =>
    split at h
    · simp at h
    · next length afterLength hlength =>
      split at h
      · simp at h
      · next content afterContent hcontent =>
        obtain ⟨rfl, rfl⟩ := Prod.mk.inj (Option.some.inj h)
        obtain ⟨rfl, rfl⟩ := Bytes.cut?_eq_some_iff.mp hcontent
        obtain ⟨field, form, rfl⟩ := Length.exists_form_of_take? hlength
        exact ⟨field, form, Tag.eq_append_of_take? htag⟩

end Element

namespace Object

/-- The data objects that bytes stand for at a level of nesting, the outermost level being 1. The
length field of each content is one that `Field` admits for its number of bytes. -/
inductive Spells (Field : Nat → Bytes → Prop) : Nat → Bytes → List Object → Prop
  | nil {level : Nat} : Spells Field level [] []
  | primitive {level : Nat} {tag : Tag} {first : UInt8} {more field content rest : Bytes}
      {objects : List Object} (htag : tag.Form first more) (hbit : first &&& 0x20 = 0)
      (hfield : Field content.length field) (hrest : Spells Field level rest objects) :
      Spells Field level (tag.bytes ++ (field ++ (content ++ rest)))
        (.primitive tag content :: objects)
  | constructed {level : Nat} {tag : Tag} {first : UInt8} {more field content rest : Bytes}
      {children objects : List Object} (htag : tag.Form first more) (hbit : first &&& 0x20 ≠ 0)
      (hlevel : level ≤ 15) (hfield : Field content.length field)
      (hcontent : Spells Field (level + 1) content children)
      (hrest : Spells Field level rest objects) :
      Spells Field level (tag.bytes ++ (field ++ (content ++ rest)))
        (.constructed tag children :: objects)

/-- What more fields are admitted, more is spelled. -/
theorem Spells.mono {Field Other : Nat → Bytes → Prop}
    (himp : ∀ n field, Field n field → Other n field) {level : Nat} {bytes : Bytes}
    {objects : List Object} (spells : Spells Field level bytes objects) :
    Spells Other level bytes objects := by
  induction spells with
  | nil => exact .nil
  | primitive htag hbit hfield _ ih => exact .primitive htag hbit (himp _ _ hfield) ih
  | constructed htag hbit hlevel hfield _ _ ihcontent ihrest =>
    exact .constructed htag hbit hlevel (himp _ _ hfield) ihcontent ihrest

/-! ### Reading one level -/

/-- The data objects that bytes stand for, where `levels` more levels may be opened. -/
def readAll? (levels : Nat) (bytes : Bytes) : Option (List Object) :=
  (Element.takeAll? bytes).bind (ofElements? levels)

/-- The data object that an element stands for, where `levels` more levels may be opened. -/
def ofElement? (levels : Nat) (element : Element) : Option Object :=
  if element.tag.isConstructed then
    match levels with
    | 0 => none
    | levels + 1 => (readAll? levels element.content).map (constructed element.tag)
  else
    some (primitive element.tag element.content)

theorem ofElements?_eq_mapM (levels : Nat) (elements : List Element) :
    ofElements? levels elements = elements.mapM (ofElement? levels) := by
  cases levels with
  | zero => rfl
  | succ levels =>
    unfold ofElements?
    congr 1
    funext element
    unfold ofElement?
    split
    · unfold readAll?
      cases Element.takeAll? element.content with
      | none => rfl
      | some elements => exact Option.map_eq_bind.symm
    · rfl

theorem readAll?_nil (levels : Nat) : readAll? levels [] = some [] := by
  simp [readAll?, Element.takeAll?, ofElements?_eq_mapM]

theorem readAll?_of_take?_eq_none {levels : Nat} {bytes : Bytes} (hne : bytes ≠ [])
    (htake : Element.take? bytes = none) : readAll? levels bytes = none := by
  obtain ⟨first, bytes, rfl⟩ := List.exists_cons_of_ne_nil hne
  rw [readAll?, Element.takeAll?]
  split
  · rfl
  · next heq => simp [htake] at heq

theorem readAll?_of_take?_eq_some {levels : Nat} {bytes rest : Bytes} {element : Element}
    (htake : Element.take? bytes = some (element, rest)) :
    readAll? levels bytes =
      (ofElement? levels element).bind fun object =>
        (readAll? levels rest).map fun objects => object :: objects := by
  cases bytes with
  | nil => exact absurd (Element.length_rest_of_take? htake) (Nat.not_lt_zero _)
  | cons first bytes =>
    rw [readAll?, Element.takeAll?]
    split
    · next heq => simp [htake] at heq
    · next taken left heq =>
      obtain ⟨rfl, rfl⟩ : element = taken ∧ rest = left := by simpa [htake] using heq
      rw [readAll?]
      cases Element.takeAll? rest with
      | none => cases ofElement? levels element <;> rfl
      | some elements =>
        simp only [Option.bind_some, ofElements?_eq_mapM, List.mapM_cons]
        cases ofElement? levels element <;> cases elements.mapM (ofElement? levels) <;> rfl

theorem ofElement?_eq_some_iff {levels : Nat} {element : Element} {object : Object}
    {first : UInt8} {more : Bytes} (htag : element.tag.Form first more) :
    ofElement? levels element = some object ↔
      (first &&& 0x20 = 0 ∧ object = .primitive element.tag element.content) ∨
      (first &&& 0x20 ≠ 0 ∧ ∃ inner children, levels = inner + 1 ∧
        readAll? inner element.content = some children ∧
        object = .constructed element.tag children) := by
  unfold ofElement?
  rw [htag.isConstructed_eq]
  by_cases hbit : first &&& 0x20 = 0
  · simp [hbit, eq_comm]
  · cases levels with
    | zero => simp [hbit]
    | succ inner =>
      simp only [hbit, ne_eq, not_false_eq_true, decide_true, if_true, Option.map_eq_some_iff,
        false_and, true_and, false_or, Nat.add_right_cancel_iff]
      constructor
      · rintro ⟨children, hchildren, rfl⟩
        exact ⟨inner, children, rfl, hchildren, rfl⟩
      · rintro ⟨_, children, rfl, hchildren, rfl⟩
        exact ⟨children, hchildren, rfl⟩

/-! ### Reading decides the grammar -/

theorem spells_of_readAll? {levels level : Nat} (hlevels : level + levels = 16) {bytes : Bytes}
    {objects : List Object} (h : readAll? levels bytes = some objects) :
    Spells Length.Form level bytes objects := by
  -- both the content of an object and what follows it are shorter than the bytes it starts
  induction hsize : bytes.length using Nat.strongRecOn generalizing levels level bytes objects with
  | _ size ih =>
    by_cases hne : bytes = []
    · subst hne
      obtain rfl : [] = objects := by simpa [readAll?_nil] using h
      exact .nil
    · cases htake : Element.take? bytes with
      | none => simp [readAll?_of_take?_eq_none hne htake] at h
      | some taken =>
        obtain ⟨element, rest⟩ := taken
        rw [readAll?_of_take?_eq_some htake, Option.bind_eq_some_iff] at h
        obtain ⟨object, hobject, h⟩ := h
        obtain ⟨others, hothers, rfl⟩ := Option.map_eq_some_iff.mp h
        obtain ⟨field, hfield, rfl⟩ := Element.exists_form_of_take? htake
        have hpos := element.tag.length_bytes_pos
        simp only [List.length_append] at hsize
        have hrest := ih _ (by omega) hlevels hothers rfl
        obtain ⟨first, more, htag⟩ := element.tag.exists_form
        rcases (ofElement?_eq_some_iff htag).mp hobject with
          ⟨hbit, rfl⟩ | ⟨hbit, inner, children, rfl, hchildren, rfl⟩
        · exact .primitive htag hbit hfield hrest
        · have hcontent := ih _ (by omega) (show level + 1 + inner = 16 by omega) hchildren rfl
          exact .constructed htag hbit (by omega) hfield hcontent hrest

theorem readAll?_of_spells {level : Nat} {bytes : Bytes} {objects : List Object}
    (spells : Spells Length.Form level bytes objects) {levels : Nat}
    (hlevels : level + levels = 16) : readAll? levels bytes = some objects := by
  induction spells generalizing levels with
  | nil => exact readAll?_nil levels
  | @primitive level tag first more field content rest objects htag hbit hfield hrest ih =>
    have htake := Element.take?_append ⟨tag, content⟩ hfield rest
    have hobject : ofElement? levels ⟨tag, content⟩ = some (.primitive tag content) :=
      (ofElement?_eq_some_iff htag).mpr (.inl ⟨hbit, rfl⟩)
    rw [readAll?_of_take?_eq_some htake, hobject, ih hlevels]
    rfl
  | @constructed level tag first more field content rest children objects htag hbit hlevel hfield
      hcontent hrest ihcontent ihrest =>
    have htake := Element.take?_append ⟨tag, content⟩ hfield rest
    obtain ⟨inner, rfl⟩ : ∃ inner, levels = inner + 1 := ⟨levels - 1, by omega⟩
    have hobject : ofElement? (inner + 1) ⟨tag, content⟩ = some (.constructed tag children) :=
      (ofElement?_eq_some_iff htag).mpr
        (.inr ⟨hbit, inner, children, rfl, ihcontent (by omega), rfl⟩)
    rw [readAll?_of_take?_eq_some htake, hobject, ihrest hlevels]
    rfl

theorem decodeAll_eq_ok_iff {bytes : Bytes} {objects : List Object} :
    decodeAll bytes = .ok objects ↔ Spells Length.Form 1 bytes objects := by
  have hread : decodeAll bytes = .ok objects ↔
      readAll? (maxNesting - 1) bytes = some objects := by
    unfold decodeAll readAll?
    cases (Element.takeAll? bytes).bind (ofElements? (maxNesting - 1)) <;> simp
  rw [hread]
  exact ⟨spells_of_readAll? rfl, fun spells => readAll?_of_spells spells rfl⟩

/-- A byte string is read as data objects exactly if the grammar has it stand for them, and is
malformed if the grammar has it stand for none. -/
theorem decodeAll_decides_grammar (bytes : Bytes) :
    (∀ objects, decodeAll bytes = .ok objects ↔ Spells Length.Form 1 bytes objects) ∧
      (decodeAll bytes = .error .malformedData ↔
        ¬ ∃ objects, Spells Length.Form 1 bytes objects) := by
  refine ⟨fun objects => decodeAll_eq_ok_iff, ?_⟩
  simp only [← decodeAll_eq_ok_iff, not_exists]
  unfold decodeAll
  cases (Element.takeAll? bytes).bind (ofElements? (maxNesting - 1)) <;> simp

end Object

end SmartCard
