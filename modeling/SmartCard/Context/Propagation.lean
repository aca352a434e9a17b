import SmartCard.CardState.Password

/-!
What the processing of a command announces to the rest of the card.
-/

namespace SmartCard

/-- A change of the security status. -/
inductive SecurityEvent where
  /-- Secure messaging is active from the next command on. -/
  | secureMessagingEstablished
  /-- A password was presented and rejected. -/
  | authenticationFailed (password : PasswordRef)
deriving DecidableEq

/-- A security mechanism that was run with success. -/
inductive SecurityMechanism where
  /-- Password authenticated connection establishment, with the encoded authorization template
  that the terminal sent, if it sent one. -/
  | pace (password : PasswordRef) (protocol : Bytes) (chat : Option Bytes)
deriving DecidableEq

/-- The keys of a secure messaging session. -/
structure SessionKeys where
  enc : Bytes
  mac : Bytes
deriving DecidableEq

/-- Session keys with the keys left out. -/
def SessionKeys.text (keys : SessionKeys) : String :=
  "SessionKeys \x7b enc: [" ++ keys.enc.length.repr ++ " bytes], mac: [" ++
    keys.mac.length.repr ++ " bytes] \x7d"

/-- Something announced while a command is processed. -/
inductive Propagation where
  | event (event : SecurityEvent)
  | mechanism (mechanism : SecurityMechanism)
  | sessionKeys (keys : SessionKeys)
deriving DecidableEq

namespace Propagation

/-- The kinds under which announcements are collected. -/
inductive Kind where
  | securityEvent
  | securityMechanism
  | secureMessaging
deriving DecidableEq, Repr

def Kind.all : List Kind :=
  [securityEvent, securityMechanism, secureMessaging]

def Kind.name : Kind → String
  | securityEvent => "SecurityEvent"
  | securityMechanism => "SecurityMechanism"
  | secureMessaging => "SecureMessaging"

def kind : Propagation → Kind
  | event _ => .securityEvent
  | mechanism _ => .securityMechanism
  | sessionKeys _ => .secureMessaging

end Propagation

end SmartCard
