import SmartCard.Tlv.Object

/-!
Reading data objects: a byte string is first cut into tags with their contents, and the contents
of constructed tags are then read in the same way, to a fixed depth.
-/

namespace SmartCard

/-- A tag with its content, not looked into. -/
structure Element where
  tag : Tag
  content : Bytes

namespace Length

theorem length_rest_of_take? {bytes rest : Bytes} {n : Nat}
    (h : take? bytes = some (n, rest)) : rest.length < bytes.length := by
  cases bytes with
  | nil => simp [take?] at h
  | cons form bytes =>
    simp only [take?] at h
    repeat' split at h
    all_goals simp_all [Prod.mk.injEq]
    all_goals omega

end Length

namespace Element

/-- The element at the start of a byte string, and what follows it. -/
def take? (bytes : Bytes) : Option (Element × Bytes) :=
  match Tag.take? bytes with
  | none => none
  | some (tag, rest) =>
    match Length.take? rest with
    | none => none
    | some (length, rest) =>
      match Bytes.cut? length rest with
      | none => none
      | some (content, rest) => some (⟨tag, content⟩, rest)

theorem length_rest_of_take? {bytes rest : Bytes} {element : Element}
    (h : take? bytes = some (element, rest)) : rest.length < bytes.length := by
  simp only [take?] at h
  split at h
  · simp at h
  · next htag =>
    split at h
    · simp at h
    · next hlength =>
      split at h
      · simp at h
      · next hcut =>
        simp only [Option.some.injEq, Prod.mk.injEq] at h
        obtain ⟨-, rfl⟩ := h
        have htag := Tag.length_rest_of_take? htag
        have hlength := Length.length_rest_of_take? hlength
        obtain ⟨rfl, -⟩ := Bytes.cut?_eq_some_iff.1 hcut
        simp only [List.length_append] at hlength
        omega

def takeAll? : Bytes → Option (List Element)
  | [] => some []
  | first :: bytes =>
    match _taken : take? (first :: bytes) with
    | none => none
    | some (element, rest) =>
      match takeAll? rest with
      | none => none
      | some elements => some (element :: elements)
termination_by bytes => bytes.length
decreasing_by exact length_rest_of_take? _taken

end Element

namespace Object

/-- The deepest level at which a data object may lie, the outermost being 1. -/
def maxNesting : Nat := 16

/-- The data objects that elements stand for, where `levels` more levels may be opened. -/
def ofElements? (levels : Nat) (elements : List Element) : Option (List Object) :=
  elements.mapM fun element =>
    if element.tag.isConstructed then
      match levels with
      | 0 => none
      | levels + 1 => do
        let children ← ofElements? levels (← Element.takeAll? element.content)
        return constructed element.tag children
    else
      return primitive element.tag element.content
termination_by structural levels

def decodeAll (bytes : Bytes) : Except CodecError (List Object) :=
  match (Element.takeAll? bytes).bind (ofElements? (maxNesting - 1)) with
  | some objects => .ok objects
  | none => .error .malformedData

end Object

end SmartCard
