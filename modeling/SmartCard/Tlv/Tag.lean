import SmartCard.Fault

/-!
Tags of data objects, kept in their encoded form. A tag delimits itself: the bytes that follow it
are never needed to see where it ends.
-/

namespace SmartCard

namespace Tag

/-- The bytes after the first one: at most `limit`, the top bit set on all but the last. -/
def isContinuation : Nat → Bytes → Bool
  | _ + 1, [last] => last &&& 0x80 = 0
  | limit + 1, byte :: rest => byte &&& 0x80 ≠ 0 && isContinuation limit rest
  | _, _ => false

def maxLength : Nat := 4

/-- Neither padding byte starts a tag; five set bits announce that more bytes follow. -/
def isEncoding : Bytes → Bool
  | [] => false
  | first :: rest =>
    first ≠ 0x00 && first ≠ 0xFF &&
      if first &&& 0x1F = 0x1F then isContinuation (maxLength - 1) rest else rest.isEmpty

end Tag

/-- A tag in its encoded form. -/
structure Tag where
  bytes : Bytes
  wellFormed : Tag.isEncoding bytes = true
deriving DecidableEq

namespace Tag

instance : Repr Tag where
  reprPrec tag _ := "Tag(" ++ Bytes.upperHex tag.bytes ++ ")"

/-- A primitive tag of the context-specific class, by its number. -/
def context (number : BitVec 4) : Tag :=
  ⟨[UInt8.ofNat (0x80 + number.toNat)], by revert number; decide⟩

/-- How many bytes a tag has that `passed` bytes do not complete and that goes on in `rest`. -/
def extentFrom? (passed : Nat) : (rest : Bytes) → Option Nat
  | [] => none
  | byte :: rest =>
    if byte &&& 0x80 = 0 then
      some (passed + 1)
    else if passed + 1 = maxLength then
      none
    else
      extentFrom? (passed + 1) rest

/-- How many bytes at the start of a byte string make up a tag. -/
def extent? : Bytes → Option Nat
  | [] => none
  | first :: rest =>
    if first = 0x00 ∨ first = 0xFF then
      none
    else if first &&& 0x1F = 0x1F then
      extentFrom? 1 rest
    else
      some 1

theorem exists_append_of_extentFrom? {limit passed length : Nat} {bytes : Bytes}
    (hlimit : passed + limit = maxLength) (hpos : 0 < limit)
    (h : extentFrom? passed bytes = some length) :
    ∃ more rest, bytes = more ++ rest ∧ passed + more.length = length ∧
      isContinuation limit more = true := by
  induction bytes generalizing limit passed with
  | nil => simp [extentFrom?] at h
  | cons byte bytes ih =>
    obtain ⟨limit, rfl⟩ := Nat.exists_eq_add_one.mpr hpos
    simp only [extentFrom?] at h
    split at h
    · next hlast =>
      obtain rfl := Option.some.inj h
      exact ⟨[byte], bytes, rfl, rfl, by simp [isContinuation, hlast]⟩
    split at h
    · simp at h
    · next hbit hroom =>
      have hleft : passed + 1 + limit = maxLength := by omega
      obtain ⟨more, rest, rfl, rfl, hmore⟩ := ih hleft (by omega) h
      refine ⟨byte :: more, rest, rfl, by simp only [List.length_cons]; omega, ?_⟩
      cases more <;> simp_all [isContinuation]

/-- The bytes that were found to make up a tag do so. -/
theorem exists_append_of_extent? {bytes : Bytes} {length : Nat} (h : extent? bytes = some length) :
    ∃ encoded rest, bytes = encoded ++ rest ∧ encoded.length = length ∧
      isEncoding encoded = true := by
  cases bytes with
  | nil => simp [extent?] at h
  | cons first bytes =>
    simp only [extent?] at h
    split at h
    · simp at h
    split at h
    · next hpadding hmore =>
      have hlimit : 1 + (maxLength - 1) = maxLength := rfl
      obtain ⟨more, rest, rfl, rfl, hcontinued⟩ := exists_append_of_extentFrom? hlimit (by decide) h
      refine ⟨first :: more, rest, rfl, Nat.add_comm _ _, ?_⟩
      simp_all [isEncoding]
    · next hpadding hmore =>
      obtain rfl := Option.some.inj h
      exact ⟨[first], bytes, rfl, rfl, by simp_all [isEncoding]⟩

theorem isEncoding_of_cut? {bytes encoded rest : Bytes} {length : Nat}
    (hextent : extent? bytes = some length)
    (hcut : Bytes.cut? length bytes = some (encoded, rest)) : isEncoding encoded = true := by
  obtain ⟨found, _, hfound, hlength, hencoding⟩ := exists_append_of_extent? hextent
  obtain ⟨hbytes, hencoded⟩ := Bytes.cut?_eq_some_iff.1 hcut
  have hsame := List.append_inj_left (hfound.symm.trans hbytes) (hlength.trans hencoded.symm)
  exact hsame ▸ hencoding

/-- The tag at the start of a byte string, and what follows it. Its bytes are looked for, cut off
and copied into a space of `maxLength` bytes. -/
def take? (bytes : Bytes) : Option (Tag × Bytes) :=
  match hextent : extent? bytes with
  | none => none
  | some length =>
    match hcut : Bytes.cut? length bytes with
    | none => none
    | some (encoded, rest) =>
      match hcopy : Bytes.copy? maxLength encoded with
      | none => none
      | some held =>
        some (⟨held.1, Bytes.copy?_eq_some_iff.1 hcopy ▸ isEncoding_of_cut? hextent hcut⟩, rest)

theorem eq_append_of_take? {bytes rest : Bytes} {tag : Tag} (h : take? bytes = some (tag, rest)) :
    bytes = tag.bytes ++ rest := by
  unfold take? at h
  split at h
  · simp at h
  split at h
  · simp at h
  · next hcut =>
    split at h
    · simp at h
    · next hcopy =>
      obtain ⟨rfl, rfl⟩ := Prod.mk.inj (Option.some.inj h)
      simp only [Bytes.copy?_eq_some_iff.1 hcopy]
      exact (Bytes.cut?_eq_some_iff.1 hcut).1

theorem length_bytes_pos (tag : Tag) : 0 < tag.bytes.length := by
  rw [List.length_pos_iff]
  intro h
  have hform := tag.wellFormed
  simp [h, isEncoding] at hform

theorem length_rest_of_take? {bytes rest : Bytes} {tag : Tag}
    (h : take? bytes = some (tag, rest)) : rest.length < bytes.length := by
  have hpos := tag.length_bytes_pos
  rw [eq_append_of_take? h, List.length_append]
  omega

def ofBytes? (bytes : Bytes) : Option Tag :=
  match take? bytes with
  | some (tag, []) => some tag
  | _ => none

/-- The numbers that four bytes can hold lie below it. -/
def numberBound : Nat := 0x100000000

/-- The tag whose encoding is `value` in base 256 without leading zeros; four bytes at most. -/
def ofNat? (value : Nat) : Option Tag :=
  if value < numberBound then
    ofBytes? ((Bytes.ofPair (value / 0x10000) ++ Bytes.ofPair value).dropWhile (· = 0))
  else
    none

/-- The encoding as a number of 32 bits, eight of them for each byte. -/
def toUInt32 (tag : Tag) : UInt32 :=
  tag.bytes.foldl (fun value byte => value <<< 8 ||| byte.toUInt32) 0

/-- The number of a tag. -/
def toNat (tag : Tag) : Nat :=
  tag.toUInt32.toNat

/-- Whether the tag announces nested data objects. -/
def isConstructed (tag : Tag) : Bool :=
  match tag.bytes with
  | first :: _ => first &&& 0x20 ≠ 0
  | [] => false

def text (tag : Tag) : String :=
  Bytes.upperHex tag.bytes

end Tag

end SmartCard
