import SmartCard.CardState.Password
import SmartCard.Fault

/-!
Access to the persistent state of a card, and a store that keeps it in memory.
-/

namespace SmartCard

/-- The access that a persistent state `W` gives to passwords and trust points. A read may change
the state behind it too. -/
structure Storage (W : Type) where
  password : PasswordRef → W → Option PasswordState × W
  /-- Stores the remaining attempts of a password, or fails. -/
  setRetryCounter : PasswordRef → UInt8 → W → Except Fault Unit × W
  trustPoint : TerminalType → W → Option TrustPoint × W

/-- A persistent state that is kept in memory. -/
structure CardMemory where
  passwords : PasswordRef → Option PasswordState
  trustPoints : TerminalType → Option TrustPoint

namespace CardMemory

def empty : CardMemory :=
  ⟨fun _ => none, fun _ => none⟩

def withPassword (memory : CardMemory) (password : PasswordRef) (state : PasswordState) :
    CardMemory :=
  { memory with passwords := fun other => if other = password then some state
      else memory.passwords other }

def withTrustPoint (memory : CardMemory) (terminal : TerminalType) (trustPoint : TrustPoint) :
    CardMemory :=
  { memory with trustPoints := fun other => if other = terminal then some trustPoint
      else memory.trustPoints other }

/-- The counters of the passwords that are set. -/
def counters (memory : CardMemory) : List (PasswordRef × Option UInt8) :=
  PasswordRef.all.filterMap fun password =>
    (memory.passwords password).map fun state => (password, state.retryCounter)

/-- Stores the remaining attempts of a password that has a counter, and leaves one without a
counter as it is. -/
def setRetryCounter (memory : CardMemory) (password : PasswordRef) (counter : UInt8) :
    Except Fault CardMemory :=
  match memory.passwords password with
  | none => .error ⟨.referencedDataNotFound, "unknown password"⟩
  | some state =>
    if state.retryCounter.isNone then .ok memory
    else .ok (memory.withPassword password { state with retryCounter := some counter })

end CardMemory

def Storage.memory : Storage CardMemory where
  password password memory := (memory.passwords password, memory)
  setRetryCounter password counter memory :=
    match memory.setRetryCounter password counter with
    | .ok memory => (.ok (), memory)
    | .error fault => (.error fault, memory)
  trustPoint terminal memory := (memory.trustPoints terminal, memory)

end SmartCard
