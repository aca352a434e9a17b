import SmartCard.Context.Propagation
import SmartCard.Fault
import SmartCard.Pace.Algorithm

/-!
The cryptography of an authentication, as the protocol uses it.
-/

namespace SmartCard

namespace Pace

/-- The outcome of a mutual authentication: the token of the card and the keys of the session. -/
structure Authentication where
  token : Bytes
  keys : SessionKeys
deriving DecidableEq

/-- The steps of an authentication, over ephemeral data `μ`. Each of them may fail. -/
structure Mechanism (μ : Type) where
  encryptedNonce : Algorithm → (domainParameters : UInt8) → (password : Bytes) → μ →
    Except Fault Bytes × μ
  mapNonce : Bytes → μ → Except Fault Bytes × μ
  keyAgreement : Bytes → μ → Except Fault Bytes × μ
  /-- Verifies the token of the terminal; none if it used another password. -/
  mutualAuthenticate : Bytes → μ → Except Fault (Option Authentication) × μ
  reset : μ → μ

end Pace

end SmartCard
