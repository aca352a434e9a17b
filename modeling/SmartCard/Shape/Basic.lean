import SmartCard.Command.Lineage
import SmartCard.Shape.LayoutMatch
import SmartCard.Tlv.Decode

/-!
Shapes of commands. The checks that a shape stands for are made in a fixed order, and the first
one that fails decides the verdict.
-/

namespace SmartCard

/-- The shape of an expected command, under a name. -/
structure Shape where
  id : String
  format : Constraint Format
  chaining : Constraint Bool
  /-- Satisfied by what a command was derived from as well. -/
  secureMessaging : Constraint SecureMessaging
  channel : Constraint UInt8
  ins : Constraint UInt8
  p1 : Constraint UInt8
  p2 : Constraint UInt8
  case : Constraint Case
  extendedLength : Constraint Bool
  tags : Option LayoutTree
deriving DecidableEq

namespace Shape

/-- The shape that every command has. -/
def any (id : String) : Shape :=
  ⟨id, .optional, .optional, .optional, .optional, .optional, .optional, .optional, .optional,
    .optional, none⟩

def flagText (flag : Bool) : String :=
  if flag then "true" else "false"

/-- The checks that a shape stands for. -/
inductive Check where
  | format
  | chaining
  | secureMessaging
  | channel
  | ins
  | p1
  | p2
  | case
  | extendedLength
  | dataField
deriving DecidableEq, Repr

/-- The checks in the order in which they are made. -/
def Check.all : List Check :=
  [format, chaining, secureMessaging, channel, ins, p1, p2, case, extendedLength, dataField]

/-- The verdict against a field that every command has. -/
def fieldViolation? {α : Type} [DecidableEq α] (constraint : Constraint α) (text : α → String)
    (field : String) (status : StatusWord) (actual : α) : Option Verdict :=
  if constraint.admits actual then none
  else some ⟨status, constraint.mismatch text field actual⟩

/-- The verdict against a field that the class byte need not encode. -/
def classViolation? {α : Type} [DecidableEq α] (constraint : Constraint α) (text : α → String)
    (field : String) (status : StatusWord) (actual : Option α) : Option Verdict :=
  if constraint.isOptional then
    none
  else
    match actual with
    | none => some ⟨status, "class byte does not encode " ++ field⟩
    | some actual => fieldViolation? constraint text field status actual

/-- The verdict against the secure messaging of a command and its predecessors. -/
def secureMessagingViolation? (constraint : Constraint SecureMessaging) (chain : List Command) :
    Option Verdict :=
  match constraint.value? with
  | none => none
  | some mode =>
    if constraint.requirement.isSatisfied (chain.any (·.secureMessaging? = some mode)) then
      none
    else
      some ⟨.secureMessagingNotSupported, "secure messaging " ++ mode.name ++
        (if constraint.requirement = .forbidden then " used" else " expected")⟩

/-- The verdict against the length fields; a command without any has none to look at. -/
def lengthViolation? (constraint : Constraint Bool) (command : Command) : Option Verdict :=
  if constraint.isOptional then
    none
  else if command.case = .case1 then
    some ⟨.wrongLength, "length encoding not applicable to case 1 commands"⟩
  else
    fieldViolation? constraint flagText "extended length" .wrongLength command.extended

/-- The verdict against the data field; a tree that expects nothing is not looked at. -/
def dataViolation? (tags : Option LayoutTree) (data : Bytes) : Option Verdict :=
  match tags with
  | none => none
  | some tree =>
    if tree.isEmpty then
      none
    else
      match Object.decodeAll data with
      | .error _ => some ⟨.malformedData, "data field is not BER-TLV encoded"⟩
      | .ok objects =>
        let verdict := tree.verdict objects
        if verdict.isMatch then none else some verdict

/-- The verdict against a command by one check, if it fails. -/
def violation? (shape : Shape) (handle : Handle) : Check → Option Verdict
  | .format =>
    fieldViolation? shape.format Format.name "format" .classNotSupported handle.command.format
  | .chaining =>
    classViolation? shape.chaining flagText "chaining" .commandChainingNotSupported
      handle.command.chaining?
  | .secureMessaging => secureMessagingViolation? shape.secureMessaging handle.chain
  | .channel =>
    classViolation? shape.channel Bytes.shortHex "logical channel" .logicalChannelNotSupported
      handle.command.channel?
  | .ins =>
    fieldViolation? shape.ins Bytes.shortHex "INS" .instructionNotSupported handle.command.ins
  | .p1 => fieldViolation? shape.p1 Bytes.shortHex "P1" .incorrectP1P2 handle.command.p1
  | .p2 => fieldViolation? shape.p2 Bytes.shortHex "P2" .incorrectP1P2 handle.command.p2
  | .case => fieldViolation? shape.case Case.name "case" .wrongLength handle.command.case
  | .extendedLength => lengthViolation? shape.extendedLength handle.command
  | .dataField => dataViolation? shape.tags handle.command.data

/-- The verdict on a command: that of the first check that fails. -/
def verdict (shape : Shape) (handle : Handle) : Verdict :=
  (Check.all.findSome? (shape.violation? handle)).getD .success

end Shape

end SmartCard
