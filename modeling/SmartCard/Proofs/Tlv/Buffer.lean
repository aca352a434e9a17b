import SmartCard.Response

/-!
# Data objects written into a buffer

The length of nested objects is known only when they stand in the buffer; its field is then written
behind them and moved round to their front. Nothing before them is moved: whatever a buffer holds,
writing a data object appends to it, and what it appends is the plain encoding of the object.
-/

namespace SmartCard

namespace Object

/-! ### Moving a length field into its place -/

/-- The two parts behind `front` change places. -/
theorem toList_rotateFrom {buffer : Array UInt8} {front content field : Bytes} {start : Nat}
    (hbuffer : buffer.toList = front ++ content ++ field) (hstart : start = front.length)
    (h : start + field.length ≤ buffer.size) :
    (rotateFrom buffer start field.length h).toList = front ++ field ++ content := by
  have hsize : buffer.size = (front ++ content).length + field.length := by
    rw [← Array.length_toList, hbuffer, List.length_append]
  -- `field` was written last, so that its length tells where `content` ends.
  have hmiddle : buffer.size - field.length = (front ++ content).length := by omega
  have hkept : (buffer.shrink start).toList = front := by
    rw [Array.toList_shrink, hbuffer, hstart, List.append_assoc, List.take_left]
  have hmoved : (buffer.extract (front ++ content).length buffer.size).toList = field := by
    rw [Array.toList_extract, List.extract_eq_take_drop, hbuffer, List.drop_left]
    apply List.take_of_length_le
    omega
  have hshifted : (buffer.extract start (front ++ content).length).toList = content := by
    rw [Array.toList_extract, List.extract_eq_take_drop, ← List.drop_take, hbuffer,
      List.take_left, hstart, List.drop_left]
  simp only [rotateFrom, hmiddle, Array.toList_append, hkept, hmoved, hshifted]

/-- The length of what stands behind `front` is put between the two. -/
theorem toList_insertLength {buffer : Array UInt8} {front content : Bytes} {start : Nat}
    (hbuffer : buffer.toList = front ++ content) (hstart : start = front.length)
    (h : start ≤ buffer.size) :
    (insertLength buffer start h).toList =
      front ++ (Length.encode content.length ++ content) := by
  have hsize : buffer.size = front.length + content.length := by
    rw [← Array.length_toList, hbuffer, List.length_append]
  have hlength : buffer.size - start = content.length := by omega
  have hwritten : (buffer ++ Length.encode content.length).toList =
      front ++ content ++ Length.encode content.length := by
    rw [Array.toList_appendList, hbuffer]
  simp only [insertLength, hlength]
  rw [toList_rotateFrom hwritten hstart, List.append_assoc]

/-! ### Writing whole objects -/

mutual

theorem toList_writeTo (buffer : Array UInt8) :
    (object : Object) → (object.writeTo buffer).1.toList = buffer.toList ++ object.encode
  | primitive tag value => by
    simp only [writeTo, encode, Array.toList_appendList, List.append_assoc]
  | constructed tag children => by
    -- In front of the children now stands the tag as well, and the length goes behind it.
    have hchildren := toList_writeAll (buffer ++ tag.bytes) children
    have hstart : (buffer ++ tag.bytes).size = (buffer ++ tag.bytes).toList.length :=
      Array.length_toList.symm
    rw [writeTo, encode, toList_insertLength hchildren hstart, Array.toList_appendList,
      List.append_assoc]

theorem toList_writeAll (buffer : Array UInt8) :
    (objects : List Object) →
      (writeAll buffer objects).1.toList = buffer.toList ++ encodeAll objects
  | [] => by rw [writeAll, encodeAll, List.append_nil]
  | object :: rest => by
    rw [writeAll, encodeAll, toList_writeAll _ rest, toList_writeTo buffer object,
      List.append_assoc]

end

/-- What stands behind the length field of a data object. -/
def content : Object → Bytes
  | primitive _ value => value
  | constructed _ children => children.flatMap encode

theorem encodeAll_eq_flatMap (objects : List Object) :
    encodeAll objects = objects.flatMap encode := by
  induction objects with
  | nil => rw [encodeAll, List.flatMap_nil]
  | cons object rest ih => rw [encodeAll, List.flatMap_cons, ih]

theorem encode_eq_content (object : Object) :
    object.encode =
      object.tag.bytes ++ (Length.encode object.content.length ++ object.content) := by
  cases object with
  | primitive tag value =>
    rw [encode]
    rfl
  | constructed tag children =>
    rw [encode, encodeAll_eq_flatMap]
    rfl

/-- Written into a buffer, a data object leaves what the buffer held as it was and appends the plain
encoding: the bytes of the tag, the length of the content, and the content, which is the value of a
primitive object and the plain encodings of the children of a constructed one. -/
theorem writeTo_appends_encode :
    (∀ (buffer : Array UInt8) (object : Object),
      (object.writeTo buffer).1.toList = buffer.toList ++ object.encode) ∧
    ∀ object : Object, object.encode =
      object.tag.bytes ++ (Length.encode object.content.length ++ object.content) :=
  ⟨toList_writeTo, encode_eq_content⟩

example :
    let inner : Object := .constructed ⟨[0x7C], rfl⟩ [.primitive (.context 1#4) [0x01, 0x02]]
    ((Object.constructed ⟨[0x30], rfl⟩ [inner, inner]).writeTo #[0xAA, 0xBB]).1 =
      #[0xAA, 0xBB, 0x30, 0x0C, 0x7C, 0x04, 0x81, 0x02, 0x01, 0x02, 0x7C, 0x04, 0x81, 0x02, 0x01,
        0x02] := by
  decide

end Object

namespace Response

/-- A response is the plain encodings of its data objects with the status word behind them. -/
theorem encode_eq (response : Response) :
    response.encode =
      (response.data.getD []).flatMap Object.encode ++ response.status.toBytes := by
  rw [encode, Array.toList_appendList, Object.toList_writeAll, Object.encodeAll_eq_flatMap]
  rfl

end Response

end SmartCard
