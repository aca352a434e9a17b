import SmartCard.CardState.Password
import SmartCard.Document.Basic
import SmartCard.StatusWord

/-!
Status words and the parts of the card state as documents. Fields that are not known are skipped.
-/

namespace SmartCard

instance : Documented StatusWord where
  toDocument sw := .number sw.value
  ofDocument? document := (document.natBelow? 0x10000).map StatusWord.ofNat

instance : Documented PasswordRef where
  toDocument password := .text password.name
  ofDocument? := Document.oneOf? PasswordRef.all PasswordRef.name

instance : Documented TerminalType where
  toDocument terminal := .text terminal.name
  ofDocument? := Document.oneOf? TerminalType.all TerminalType.name

def PasswordState.fieldNames : List String :=
  ["secret", "retry_counter", "initial_retry_counter"]

/-- Counters that are missing are none. -/
instance : Documented PasswordState where
  toDocument state :=
    .object [("secret", toDocument state.secret), ("retry_counter", toDocument state.retryCounter),
      ("initial_retry_counter", toDocument state.initialRetryCounter)]
  ofDocument? document := do
    let fields ← Document.fields? PasswordState.fieldNames 3 true document
    let secret ← Document.required? fields "secret"
    let retryCounter ← Document.fieldOr? fields "retry_counter" none
    let initialRetryCounter ← Document.fieldOr? fields "initial_retry_counter" none
    return ⟨secret, retryCounter, initialRetryCounter⟩

def TrustPoint.fieldNames : List String :=
  ["certificate_holder_reference"]

instance : Documented TrustPoint where
  toDocument trustPoint :=
    .object [("certificate_holder_reference", toDocument trustPoint.certificateHolderReference)]
  ofDocument? document := do
    let fields ← Document.fields? TrustPoint.fieldNames 1 true document
    let reference ← Document.required? fields "certificate_holder_reference"
    return ⟨reference⟩

end SmartCard
