/-!
Byte strings: cutting off a counted part, big-endian pairs and hexadecimal texts.
-/

namespace SmartCard

abbrev Bytes := List UInt8

namespace Bytes

/-- Decides equality of byte strings byte by byte; nothing is kept of the bytes that were equal. -/
def decEq (a b : Bytes) : Decidable (a = b) :=
  match h : List.beq a b with
  | true => isTrue (eq_of_beq h)
  | false => isFalse (ne_of_beq_false h)

instance : DecidableEq Bytes :=
  decEq

/-- The first `count` bytes and what follows them, if there are that many. -/
def cut? (count : Nat) (bytes : Bytes) : Option (Bytes × Bytes) :=
  let first := bytes.take count
  if first.length = count then some (first, bytes.drop count) else none

theorem cut?_eq_some_iff {count : Nat} {bytes first rest : Bytes} :
    cut? count bytes = some (first, rest) ↔ bytes = first ++ rest ∧ first.length = count := by
  constructor
  · intro h
    simp only [cut?] at h
    split at h
    · next hlen =>
      simp only [Option.some.injEq, Prod.mk.injEq] at h
      obtain ⟨rfl, rfl⟩ := h
      exact ⟨(List.take_append_drop count bytes).symm, hlen⟩
    · simp at h
  · rintro ⟨rfl, rfl⟩
    simp [cut?]

theorem cut?_append (first rest : Bytes) : cut? first.length (first ++ rest) = some (first, rest) :=
  cut?_eq_some_iff.2 ⟨rfl, rfl⟩

/-- Byte strings for which there is room in `capacity` bytes. -/
abbrev Within (capacity : Nat) : Type :=
  {bytes : Bytes // bytes.length ≤ capacity}

/-- A copy of a byte string in a space of fixed size, if there is room for it. -/
def copy? (capacity : Nat) (bytes : Bytes) : Option (Within capacity) :=
  if h : bytes.length ≤ capacity then some ⟨bytes, h⟩ else none

theorem copy?_eq_some_iff {capacity : Nat} {bytes : Bytes} {held : Within capacity} :
    copy? capacity bytes = some held ↔ held.1 = bytes := by
  obtain ⟨copied, hroom⟩ := held
  constructor
  · intro h
    simp only [copy?] at h
    split at h
    · exact (congrArg Subtype.val (Option.some.inj h)).symm
    · simp at h
  · rintro rfl
    exact dif_pos hroom

theorem copy?_val {capacity : Nat} (held : Within capacity) :
    copy? capacity held.1 = some held :=
  copy?_eq_some_iff.2 rfl

/-- The last two base-256 digits of `n`, high byte first. -/
def ofPair (n : Nat) : Bytes :=
  [UInt8.ofNat (n / 256), UInt8.ofNat n]

/-- The number that two bytes stand for, high byte first. -/
def pairValue (high low : UInt8) : Nat :=
  high.toNat * 256 + low.toNat

theorem pairValue_lt (high low : UInt8) : pairValue high low < 0x10000 := by
  have hhigh := high.toNat_lt
  have hlow := low.toNat_lt
  unfold pairValue
  omega

theorem ofPair_pairValue (high low : UInt8) : ofPair (pairValue high low) = [high, low] := by
  have hhigh := high.toNat_lt
  have hlow := low.toNat_lt
  have hdigits : ofPair (pairValue high low) = [UInt8.ofNat high.toNat, UInt8.ofNat low.toNat] := by
    simp only [ofPair, pairValue, List.cons.injEq, and_true, ← UInt8.toNat_inj, UInt8.toNat_ofNat']
    omega
  simpa using hdigits

theorem pairValue_ofNat (n : Nat) :
    pairValue (UInt8.ofNat (n / 256)) (UInt8.ofNat n) = n % 0x10000 := by
  simp only [pairValue, UInt8.toNat_ofNat']
  omega

/-- Higher digits do not matter to a pair. -/
theorem ofPair_mod (n : Nat) : ofPair (n % 0x10000) = ofPair n := by
  simp only [ofPair, List.cons.injEq, and_true, ← UInt8.toNat_inj, UInt8.toNat_ofNat']
  omega

/-- The hexadecimal digit of a value below 16, in upper case. -/
def upperDigit (value : Nat) : Char :=
  value.digitChar.toUpper

/-- The value of a hexadecimal digit in either case. -/
def digitValue? (digit : Char) : Option Nat :=
  (List.range 16).find? fun value => value.digitChar = digit || upperDigit value = digit

/-- The bytes that pairs of hexadecimal digits stand for, read behind those of `read`. -/
def ofDigits? (read : Array UInt8) : List Char → Option (Array UInt8)
  | [] => some read
  | high :: low :: rest =>
    match digitValue? high, digitValue? low with
    | some high, some low => ofDigits? (read.push (UInt8.ofNat (high * 16 + low))) rest
    | _, _ => none
  | _ => none

/-- The bytes that a text in hexadecimal digits stands for; spaces are skipped. -/
def ofHex? (text : String) : Option Bytes :=
  (ofDigits? #[] (text.toList.filter (· ≠ ' '))).map Array.toList

def lowerHex (bytes : Bytes) : String :=
  String.ofList (bytes.flatMap fun byte =>
    [(byte.toNat / 16).digitChar, (byte.toNat % 16).digitChar])

def upperHex (bytes : Bytes) : String :=
  String.ofList (bytes.flatMap fun byte =>
    [upperDigit (byte.toNat / 16), upperDigit (byte.toNat % 16)])

/-- The bytes one by one in brackets, as diagnostics quote them. -/
def listing (bytes : Bytes) : String :=
  "[" ++ ", ".intercalate (bytes.map fun byte => lowerHex [byte]) ++ "]"

/-- The value of the bytes as a polynomial at 31, with the lowest 32 bits kept. -/
def checksum (bytes : Bytes) : Nat :=
  bytes.foldl (fun sum byte => (sum * 31 + byte.toNat) % 0x100000000) 0

/-- Two lower-case digits per byte, or the length and the checksum of more than 512 bytes. -/
def summary (bytes : Bytes) : String :=
  if bytes.length ≤ 512 then bytes.lowerHex
  else "len " ++ bytes.length.repr ++ " sum " ++ bytes.checksum.repr

/-- A single byte with as few lower-case digits as it needs. -/
def shortHex (byte : UInt8) : String :=
  if byte.toNat < 16 then String.singleton byte.toNat.digitChar else lowerHex [byte]

end Bytes

end SmartCard
