import SmartCard.CardState.Storage
import SmartCard.Command.Lineage

/-!
A card state for trials: passwords can be hidden and writing can be made to fail. It also numbers
the handles that are issued.
-/

namespace SmartCard

/-- A card state in memory behind switches. -/
structure Trial where
  memory : CardMemory
  hidden : List PasswordRef
  /-- The status word with which writing fails, if it does. -/
  failure : Option StatusWord
  issued : Nat

namespace Trial

def start (memory : CardMemory) : Trial :=
  ⟨memory, [], none, 0⟩

/-- Hides a password, and says whether that is news. -/
def hide (trial : Trial) (password : PasswordRef) : Bool × Trial :=
  (!trial.hidden.contains password, { trial with hidden := password :: trial.hidden })

/-- Shows a password again, and says whether that is news. -/
def unhide (trial : Trial) (password : PasswordRef) : Bool × Trial :=
  (trial.hidden.contains password,
    { trial with hidden := trial.hidden.filter (· ≠ password) })

/-- A serial that was not issued before. -/
def issue (trial : Trial) : Serial × Trial :=
  (.issued trial.issued, { trial with issued := trial.issued + 1 })

/-- A handle for `command`, derived from `parent` if one is given. -/
def issueHandle (trial : Trial) (parent : Option Handle) (command : Command) : Handle × Trial :=
  let (serial, trial) := trial.issue
  (match parent with
    | none => .root serial command
    | some parent => parent.derive serial command, trial)

/-- A handle for the last of several commands, each derived from the one before it. -/
def issueChain (trial : Trial) (ancestors : List Command) (command : Command) : Handle × Trial :=
  let (parent, trial) := ancestors.foldl (fun (parent, trial) ancestor =>
    let (handle, trial) := issueHandle trial parent ancestor
    (some handle, trial)) (none, trial)
  trial.issueHandle parent command

/-- The access that the switches leave. -/
def storage : Storage Trial where
  password password trial :=
    (if trial.hidden.contains password then none else trial.memory.passwords password, trial)
  setRetryCounter password counter trial :=
    match trial.failure with
    | some status => (.error ⟨status, "counter not writable"⟩, trial)
    | none =>
      match trial.memory.setRetryCounter password counter with
      | .ok memory => (.ok (), { trial with memory })
      | .error fault => (.error fault, trial)
  trustPoint terminal trial := (trial.memory.trustPoints terminal, trial)

end Trial

end SmartCard
