import SmartCard.Tlv.Tag
import SmartCard.Tlv.Length

/-!
Data objects: a tag with bytes or with further data objects, and how they are written.

`Object.encode` is the written form. `Object.writeTo` produces it inside a growing buffer, where
the length of nested objects is known only after they have been written.
-/

namespace SmartCard

inductive Object where
  | primitive (tag : Tag) (value : Bytes)
  | constructed (tag : Tag) (children : List Object)

namespace Object

mutual

def decEq : (a b : Object) → Decidable (a = b)
  | primitive tag value, primitive tag' value' =>
    if h : tag = tag' ∧ value = value' then
      isTrue (by rw [h.1, h.2])
    else
      isFalse (by rintro ⟨⟩; exact h ⟨rfl, rfl⟩)
  | constructed tag children, constructed tag' children' =>
    match decEqList children children' with
    | isTrue hchildren =>
      if htag : tag = tag' then isTrue (by rw [htag, hchildren])
      else isFalse (by rintro ⟨⟩; exact htag rfl)
    | isFalse hchildren => isFalse (by rintro ⟨⟩; exact hchildren rfl)
  | primitive .., constructed .. => isFalse (by rintro ⟨⟩)
  | constructed .., primitive .. => isFalse (by rintro ⟨⟩)

def decEqList : (a b : List Object) → Decidable (a = b)
  | [], [] => isTrue rfl
  | a :: as, b :: bs =>
    match decEq a b with
    | isTrue head =>
      match decEqList as bs with
      | isTrue tail => isTrue (by rw [head, tail])
      | isFalse tail => isFalse (by rintro ⟨⟩; exact tail rfl)
    | isFalse head => isFalse (by rintro ⟨⟩; exact head rfl)
  | [], _ :: _ => isFalse (by rintro ⟨⟩)
  | _ :: _, [] => isFalse (by rintro ⟨⟩)

end

instance : DecidableEq Object :=
  decEq

def tag : Object → Tag
  | primitive tag _ => tag
  | constructed tag _ => tag

/-- The nested objects, none for a primitive object. -/
def children : Object → List Object
  | primitive _ _ => []
  | constructed _ children => children

def bytes? : Object → Option Bytes
  | primitive _ value => some value
  | constructed _ _ => none

mutual

/-- A data object as its tag, the length of its content and the content. -/
def encode : Object → Bytes
  | primitive tag value => tag.bytes ++ (Length.encode value.length ++ value)
  | constructed tag children =>
    let content := encodeAll children
    tag.bytes ++ (Length.encode content.length ++ content)

def encodeAll : List Object → Bytes
  | [] => []
  | object :: rest => object.encode ++ encodeAll rest

end

theorem size_append_bytes (buffer : Array UInt8) (bytes : Bytes) :
    (buffer ++ bytes).size = buffer.size + bytes.length := by
  rw [← Array.length_toList, Array.toList_appendList, List.length_append, Array.length_toList]

/-- A buffer with the bytes from `start` on moved round, the last `count` of them to the front. -/
def rotateFrom (buffer : Array UInt8) (start count : Nat) (_h : start + count ≤ buffer.size) :
    Array UInt8 :=
  let middle := buffer.size - count
  let moved := buffer.extract middle buffer.size
  let shifted := buffer.extract start middle
  buffer.shrink start ++ moved ++ shifted

theorem size_rotateFrom {buffer : Array UInt8} {start count : Nat}
    (h : start + count ≤ buffer.size) : (rotateFrom buffer start count h).size = buffer.size := by
  simp only [rotateFrom, Array.size_append, Array.size_shrink, Array.size_extract]
  omega

/-- A buffer with the length of everything after `start` inserted at `start`. The length field is
written behind the rest and then moved to its place. -/
def insertLength (buffer : Array UInt8) (start : Nat) (h : start ≤ buffer.size) : Array UInt8 :=
  let field := Length.encode (buffer.size - start)
  rotateFrom (buffer ++ field) start field.length
    (by rw [size_append_bytes]; exact Nat.add_le_add_right h _)

theorem size_le_insertLength {buffer : Array UInt8} {start : Nat} (h : start ≤ buffer.size) :
    buffer.size ≤ (insertLength buffer start h).size := by
  rw [insertLength, size_rotateFrom, size_append_bytes]
  exact Nat.le_add_right _ _

/-- What becomes of a buffer that is only written to: positions in it stay positions. -/
abbrev Grown (buffer : Array UInt8) : Type :=
  {grown : Array UInt8 // buffer.size ≤ grown.size}

mutual

/-- A buffer with a data object written behind what it holds. -/
def writeTo (buffer : Array UInt8) : Object → Grown buffer
  | primitive tag value =>
    ⟨buffer ++ tag.bytes ++ Length.encode value.length ++ value, by
      simp only [size_append_bytes]; omega⟩
  | constructed tag children =>
    let tagged := buffer ++ tag.bytes
    let start := tagged.size
    let written := writeAll tagged children
    ⟨insertLength written.1 start written.2, by
      calc buffer.size
        _ ≤ tagged.size := by simp only [tagged, size_append_bytes]; omega
        _ ≤ written.1.size := written.2
        _ ≤ (insertLength written.1 start written.2).size := size_le_insertLength written.2⟩

/-- A buffer with data objects written behind what it holds. -/
def writeAll (buffer : Array UInt8) : List Object → Grown buffer
  | [] => ⟨buffer, Nat.le_refl _⟩
  | object :: rest =>
    let first := object.writeTo buffer
    let all := writeAll first.1 rest
    ⟨all.1, Nat.le_trans first.2 all.2⟩

end

/-- The first of several data objects with a tag. -/
def withTag? (tag : Tag) (objects : List Object) : Option Object :=
  objects.find? (·.tag = tag)

/-- Follows a path of tags inwards, taking the first object with each of them. -/
def atPath? : List Tag → List Object → Option Object
  | [], _ => none
  | [last], objects => withTag? last objects
  | tag :: path, objects => (withTag? tag objects).bind fun object => atPath? path object.children

end Object

end SmartCard
