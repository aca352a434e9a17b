import SmartCard.Bytes

/-!
Status words: the two bytes that conclude every response.
-/

namespace SmartCard

/-- A status word, SW1 before SW2. -/
structure StatusWord where
  sw1 : UInt8
  sw2 : UInt8
deriving DecidableEq, Repr

namespace StatusWord

/-- The status word whose two bytes are the last two base-256 digits of `value`. -/
def ofNat (value : Nat) : StatusWord :=
  ⟨UInt8.ofNat (value / 256), UInt8.ofNat value⟩

def value (sw : StatusWord) : Nat :=
  Bytes.pairValue sw.sw1 sw.sw2

def toBytes (sw : StatusWord) : Bytes :=
  [sw.sw1, sw.sw2]

def success : StatusWord := ⟨0x90, 0x00⟩
/-- Verification failed, without a retry counter. -/
def verificationFailed : StatusWord := ⟨0x63, 0x00⟩
/-- Execution error, non-volatile memory unchanged. -/
def executionError : StatusWord := ⟨0x64, 0x00⟩
def wrongLength : StatusWord := ⟨0x67, 0x00⟩
def logicalChannelNotSupported : StatusWord := ⟨0x68, 0x81⟩
def secureMessagingNotSupported : StatusWord := ⟨0x68, 0x82⟩
def commandChainingNotSupported : StatusWord := ⟨0x68, 0x84⟩
def securityStatusNotSatisfied : StatusWord := ⟨0x69, 0x82⟩
def authenticationMethodBlocked : StatusWord := ⟨0x69, 0x83⟩
def conditionsOfUseNotSatisfied : StatusWord := ⟨0x69, 0x85⟩
/-- Incorrect parameters in the data field. -/
def wrongData : StatusWord := ⟨0x6A, 0x80⟩
def functionNotSupported : StatusWord := ⟨0x6A, 0x81⟩
def fileNotFound : StatusWord := ⟨0x6A, 0x82⟩
/-- Data length inconsistent with the structure of the data field. -/
def malformedData : StatusWord := ⟨0x6A, 0x85⟩
def incorrectP1P2 : StatusWord := ⟨0x6A, 0x86⟩
def referencedDataNotFound : StatusWord := ⟨0x6A, 0x88⟩
def instructionNotSupported : StatusWord := ⟨0x6D, 0x00⟩
def classNotSupported : StatusWord := ⟨0x6E, 0x00⟩
def unknownError : StatusWord := ⟨0x6F, 0x00⟩

def named : List (String × StatusWord) :=
  [("success", success), ("verification failed", verificationFailed),
    ("execution error", executionError), ("wrong length", wrongLength),
    ("logical channel not supported", logicalChannelNotSupported),
    ("secure messaging not supported", secureMessagingNotSupported),
    ("command chaining not supported", commandChainingNotSupported),
    ("security status not satisfied", securityStatusNotSatisfied),
    ("authentication method blocked", authenticationMethodBlocked),
    ("conditions of use not satisfied", conditionsOfUseNotSatisfied), ("wrong data", wrongData),
    ("function not supported", functionNotSupported), ("malformed data", malformedData),
    ("incorrect p1 p2", incorrectP1P2), ("referenced data not found", referencedDataNotFound),
    ("instruction not supported", instructionNotSupported),
    ("class not supported", classNotSupported), ("unknown error", unknownError)]

/-- The warning that carries the remaining attempts in its low nibble, which stops at 15. -/
def retryCounter (remaining : UInt8) : StatusWord :=
  ⟨0x63, UInt8.ofNat (0xC0 + min remaining.toNat 15)⟩

/-- More response data is available. -/
def moreAvailable (remaining : UInt8) : StatusWord :=
  ⟨0x61, remaining⟩

def isSuccess (sw : StatusWord) : Bool :=
  sw = success

/-- `61XX` does not conclude the processing of a command. -/
def isIntermediate (sw : StatusWord) : Bool :=
  sw.sw1 = 0x61

/-- `62XX` and `63XX`. -/
def isWarning (sw : StatusWord) : Bool :=
  sw.sw1 = 0x62 ∨ sw.sw1 = 0x63

/-- `64XX` to `6FXX`. -/
def isError (sw : StatusWord) : Bool :=
  0x64 ≤ sw.sw1 ∧ sw.sw1 ≤ 0x6F

/-- Any of the warnings `63C0` to `63CF`. -/
def isRetryCounter (sw : StatusWord) : Bool :=
  sw.sw1 = 0x63 ∧ sw.sw2.toNat / 16 = 0xC

/-- The remaining attempts that a `63CX` warning carries. -/
def counter? (sw : StatusWord) : Option UInt8 :=
  if sw.isRetryCounter then some (UInt8.ofNat (sw.sw2.toNat % 16)) else none

def text (sw : StatusWord) : String :=
  Bytes.upperHex sw.toBytes

end StatusWord

end SmartCard
