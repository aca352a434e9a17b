import SmartCard.Bytes

/-!
Passwords and terminal types, with the reference bytes that commands name them by.
-/

namespace SmartCard

/-- A password that a terminal can authenticate with. -/
inductive PasswordRef where
  /-- Machine readable zone. -/
  | mrz
  /-- Card access number. -/
  | can
  /-- Personal identification number. -/
  | pin
  /-- PIN unblocking key. -/
  | puk
deriving DecidableEq, Repr

namespace PasswordRef

def all : List PasswordRef :=
  [mrz, can, pin, puk]

def name : PasswordRef → String
  | mrz => "Mrz"
  | can => "Can"
  | pin => "Pin"
  | puk => "Puk"

/-- The byte by which commands refer to a password. -/
def reference : PasswordRef → UInt8
  | mrz => 1
  | can => 2
  | pin => 3
  | puk => 4

/-- The password that a byte refers to. -/
def ofReference? (byte : UInt8) : Option PasswordRef :=
  all.find? (·.reference = byte)

end PasswordRef

/-- What a terminal is entitled to be. -/
inductive TerminalType where
  | inspectionSystem
  | authenticationTerminal
  | signatureTerminal
deriving DecidableEq, Repr

namespace TerminalType

def all : List TerminalType :=
  [inspectionSystem, authenticationTerminal, signatureTerminal]

def name : TerminalType → String
  | inspectionSystem => "InspectionSystem"
  | authenticationTerminal => "AuthenticationTerminal"
  | signatureTerminal => "SignatureTerminal"

/-- The last byte of the role that stands for a terminal type. -/
def reference : TerminalType → UInt8
  | inspectionSystem => 1
  | authenticationTerminal => 2
  | signatureTerminal => 3

/-- The terminal type that a byte stands for. -/
def ofReference? (byte : UInt8) : Option TerminalType :=
  all.find? (·.reference = byte)

end TerminalType

/-- A password as the card stores it. -/
structure PasswordState where
  secret : Bytes
  /-- The remaining attempts; a password without a counter cannot be blocked. -/
  retryCounter : Option UInt8
  /-- The counter restored by a successful authentication. -/
  initialRetryCounter : Option UInt8
deriving DecidableEq

namespace PasswordState

def fresh (secret : Bytes) (retryCounter : Option UInt8) : PasswordState :=
  ⟨secret, retryCounter, retryCounter⟩

/-- A blocked password cannot be used any more. -/
def isBlocked (state : PasswordState) : Bool :=
  state.retryCounter = some 0

/-- A suspended password has one attempt left. -/
def isSuspended (state : PasswordState) : Bool :=
  state.retryCounter = some 1

private def counterText : Option UInt8 → String
  | none => "None"
  | some counter => "Some(" ++ counter.toNat.repr ++ ")"

/-- The stored password with the secret left out. -/
def text (state : PasswordState) : String :=
  "PasswordState \x7b secret: [" ++ state.secret.length.repr ++ " bytes], retry_counter: " ++
    counterText state.retryCounter ++ ", initial_retry_counter: " ++
    counterText state.initialRetryCounter ++ " \x7d"

end PasswordState

/-- The root that certificates of a terminal type are checked against. -/
structure TrustPoint where
  certificateHolderReference : Bytes
deriving DecidableEq

end SmartCard
