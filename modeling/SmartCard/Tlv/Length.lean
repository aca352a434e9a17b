import SmartCard.Bytes

/-!
Length fields: one byte up to `7F`, else a form byte and one, two or three bytes.
-/

namespace SmartCard

namespace Length

/-- The shortest length field for `n`; the longest form keeps only the last three bytes of `n`. -/
def encode (n : Nat) : Bytes :=
  if n < 0x80 then
    [UInt8.ofNat n]
  else if n < 0x100 then
    [0x81, UInt8.ofNat n]
  else if n < 0x10000 then
    0x82 :: Bytes.ofPair n
  else
    0x83 :: UInt8.ofNat (n / 0x10000) :: Bytes.ofPair n

/-- The length field at the start of a byte string, in any form, and what follows it. -/
def take? : Bytes → Option (Nat × Bytes)
  | [] => none
  | form :: rest =>
    if form < 0x80 then
      some (form.toNat, rest)
    else if form = 0x81 then
      match rest with
      | low :: rest => some (low.toNat, rest)
      | _ => none
    else if form = 0x82 then
      match rest with
      | high :: low :: rest => some (Bytes.pairValue high low, rest)
      | _ => none
    else if form = 0x83 then
      match rest with
      | top :: high :: low :: rest => some (top.toNat * 0x10000 + Bytes.pairValue high low, rest)
      | _ => none
    else
      none

end Length

end SmartCard
