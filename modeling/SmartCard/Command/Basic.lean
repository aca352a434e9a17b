import SmartCard.Command.Class
import SmartCard.Fault

/-!
Commands: a header of four bytes, a data field and the number of response bytes expected.
-/

namespace SmartCard

/-- Which of data field and expected length a command has. -/
inductive Case where
  | case1
  /-- Expected length only. -/
  | case2
  /-- Data only. -/
  | case3
  /-- Data and expected length. -/
  | case4
deriving DecidableEq, Repr

namespace Case

def all : List Case :=
  [case1, case2, case3, case4]

def name : Case → String
  | case1 => "Case1"
  | case2 => "Case2"
  | case3 => "Case3"
  | case4 => "Case4"

end Case

structure Command where
  cla : UInt8
  ins : UInt8
  p1 : UInt8
  p2 : UInt8
  data : Bytes
  /-- The most response bytes expected, if any are. -/
  ne : Option Nat
  /-- Whether the length fields are the extended ones. -/
  extended : Bool
deriving DecidableEq, Repr

namespace Command

def maxData : Nat := 0xFFFF

def maxNe : Nat := 0x10000

/-- A command with the length fields that its data and expected length need. -/
def build (cla ins p1 p2 : UInt8) (data : Bytes) (ne : Option Nat) : Except CodecError Command :=
  if maxData < data.length ∨ ne.any (fun ne => ne = 0 ∨ maxNe < ne) then
    .error .malformedCommand
  else
    .ok ⟨cla, ins, p1, p2, data, ne, 0xFF < data.length ∨ ne.any (0x100 < ·)⟩

def case (command : Command) : Case :=
  match command.data.isEmpty, command.ne with
  | true, none => .case1
  | true, some _ => .case2
  | false, none => .case3
  | false, some _ => .case4

def format (command : Command) : Format :=
  Class.format command.cla

def chaining? (command : Command) : Option Bool :=
  Class.chaining? command.cla

def channel? (command : Command) : Option UInt8 :=
  Class.channel? command.cla

def secureMessaging? (command : Command) : Option SecureMessaging :=
  Class.secureMessaging? command.cla

end Command

end SmartCard
