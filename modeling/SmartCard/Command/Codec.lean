import SmartCard.Command.Basic

/-!
Commands as bytes. A lone `00` in a short field stands for 256 and `0000` in an extended one for
65536; an extended body starts with `00`.
-/

namespace SmartCard

namespace Command

structure Body where
  data : Bytes
  ne : Option Nat
  extended : Bool
deriving DecidableEq, Repr

/-- The expected length that one byte stands for. -/
def shortNe (low : UInt8) : Nat :=
  if low = 0 then 0x100 else low.toNat

/-- The expected length that two bytes stand for. -/
def extendedNe (high low : UInt8) : Nat :=
  if high = 0 ∧ low = 0 then 0x10000 else Bytes.pairValue high low

namespace Body

/-- The short body of a data field of `length` bytes, and perhaps an expected length. -/
def ofShort? (length : Nat) (rest : Bytes) : Option Body :=
  match Bytes.cut? length rest with
  | some (data, []) => some ⟨data, none, false⟩
  | some (data, [low]) => some ⟨data, some (shortNe low), false⟩
  | _ => none

/-- The extended body of a data field of `length` bytes, and perhaps an expected length. -/
def ofExtended? (length : Nat) (rest : Bytes) : Option Body :=
  if length = 0 then
    none
  else
    match Bytes.cut? length rest with
    | some (data, []) => some ⟨data, none, true⟩
    | some (data, [high, low]) => some ⟨data, some (extendedNe high low), true⟩
    | _ => none

/-- The body that bytes after a header encode. -/
def ofBytes? : Bytes → Option Body
  | [] => some ⟨[], none, false⟩
  | [low] => some ⟨[], some (shortNe low), false⟩
  | first :: rest =>
    if first = 0 then
      match rest with
      | [high, low] => some ⟨[], some (extendedNe high low), true⟩
      | high :: low :: rest => ofExtended? (Bytes.pairValue high low) rest
      | _ => none
    else
      ofShort? first.toNat rest

end Body

/-- The command that bytes encode; the class byte `FF` is not one. -/
def decode : Bytes → Except CodecError Command
  | cla :: ins :: p1 :: p2 :: body =>
    if cla = 0xFF then
      .error .malformedCommand
    else
      match Body.ofBytes? body with
      | some body => .ok ⟨cla, ins, p1, p2, body.data, body.ne, body.extended⟩
      | none => .error .malformedCommand
  | _ => .error .malformedCommand

/-- The data field behind its length field, nothing without data. -/
def encodeData (command : Command) : Bytes :=
  if command.data.isEmpty then
    []
  else if command.extended then
    0 :: Bytes.ofPair command.data.length ++ command.data
  else
    UInt8.ofNat command.data.length :: command.data

/-- The field of the expected length, nothing if no response data is expected. -/
def encodeNe (command : Command) : Bytes :=
  match command.ne with
  | none => []
  | some ne =>
    if command.extended then
      if command.data.isEmpty then 0 :: Bytes.ofPair ne else Bytes.ofPair ne
    else
      [UInt8.ofNat ne]

/-- A command as bytes, with the length fields it was read or built with. -/
def encode (command : Command) : Bytes :=
  command.cla :: command.ins :: command.p1 :: command.p2 ::
    (command.encodeData ++ command.encodeNe)

end Command

end SmartCard
