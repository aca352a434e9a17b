import SmartCard.Pace.Mechanism

/-!
A mechanism without cryptography, to rehearse authentications with: it gives back what it is given,
accepts the password itself as the token of the terminal, and logs every step.
-/

namespace SmartCard

namespace Pace

/-- The ephemeral data of a rehearsal, and the answers that take the place of the usual ones. -/
structure Rehearsal where
  nonce : Option (Except Fault Bytes)
  map : Option (Except Fault Bytes)
  agree : Option (Except Fault Bytes)
  token : Option (Except Fault Bytes)
  keys : SessionKeys
  /-- Whether a reset leaves everything as it is. -/
  sticky : Bool
  /-- The password of the authentication that is under way. -/
  password : Option Bytes
  log : List String

namespace Rehearsal

/-- The keys that are agreed on unless others are given. -/
def defaultKeys : SessionKeys :=
  ⟨[0xE1, 0xE1], [0xA1, 0xA1]⟩

def note (rehearsal : Rehearsal) (line : String) : Rehearsal :=
  { rehearsal with log := rehearsal.log ++ ["mech: " ++ line] }

/-- The lines logged so far, and the rehearsal without them. -/
def takeLog (rehearsal : Rehearsal) : List String × Rehearsal :=
  (rehearsal.log, { rehearsal with log := [] })

/-- Logs the usual answer and gives the one in its place. -/
def answer (name : String) (other : Option (Except Fault Bytes))
    (usual : Bytes) (rehearsal : Rehearsal) : Except Fault Bytes × Rehearsal :=
  (other.getD (.ok usual), rehearsal.note (name ++ " " ++ usual.summary))

def mechanism : Mechanism Rehearsal where
  encryptedNonce algorithm domainParameters password rehearsal :=
    answer "nonce" rehearsal.nonce
      (algorithm.mapping.bit :: algorithm.cipher.component :: domainParameters :: password)
      { rehearsal with password := some password }
  mapNonce data rehearsal := answer "map" rehearsal.map data rehearsal
  keyAgreement key rehearsal := answer "agree" rehearsal.agree key rehearsal
  mutualAuthenticate token rehearsal :=
    match answer "token" rehearsal.token token.reverse rehearsal with
    | (.error fault, rehearsal) => (.error fault, rehearsal)
    | (.ok reply, rehearsal) =>
      (.ok (if rehearsal.password = some token then some ⟨reply, rehearsal.keys⟩ else none),
        rehearsal)
  reset rehearsal :=
    if rehearsal.sticky then rehearsal else { rehearsal with password := none }.note "reset"

end Rehearsal

end Pace

end SmartCard
