import SmartCard.CardState.Storage
import SmartCard.Context.Basic
import SmartCard.Protocol.Registry

/-!
Protocols: state machines that answer commands. A protocol consists of hooks; the engine that calls
them keeps the state. A hook sees the command by way of a `Step` and says what it did in a `Reply`.

States are grouped into modes. The state is what a mode was left in; moving to another mode runs an
entry action.
-/

namespace SmartCard

/-- What a hook sees of the command that is processed. -/
structure Step where
  protocol : String
  registry : Registry
  context : Context

namespace Step

def command (step : Step) : Handle :=
  step.context.command

/-- The verdict of a registered shape on the current command. -/
def verdict? (step : Step) (id : String) : Option Verdict :=
  (step.registry.get? id).map (·.verdict step.command)

/-- Whether the current command has a registered shape. -/
def hasShape (step : Step) (id : String) : Bool :=
  (step.verdict? id).any (·.isMatch)

def status? (step : Step) : Option StatusWord :=
  step.context.response.map (·.status)

def hasStatus (step : Step) (status : StatusWord) : Bool :=
  step.status? = some status

/-- Whether the current response carries a retry counter. -/
def hasRetryCounter (step : Step) : Bool :=
  step.status?.any (·.isRetryCounter)

/-- Whether the current response is a warning or an error. -/
def hasFailed (step : Step) : Bool :=
  step.status?.any fun status => status.isWarning || status.isError

def isAnswered (step : Step) : Bool :=
  step.context.response.isSome

end Step

/-- What a hook did: its result, the data of the protocol, the persistent state and the context as
they are now, and whether the processing of the command is to stop. -/
structure Reply (σ W α : Type) where
  value : α
  data : σ
  world : W
  context : Context
  stop : Bool

/-- For whom security information is meant. -/
inductive Publicity where
  | anytime
  | authenticated
  | privileged
deriving DecidableEq, Repr

namespace Publicity

def all : List Publicity :=
  [anytime, authenticated, privileged]

def name : Publicity → String
  | anytime => "Anytime"
  | authenticated => "Authenticated"
  | privileged => "Privileged"

end Publicity

/-- A state machine with states `S` in modes `M`, data `σ` of its own outside of the state, over a
persistent state `W`. -/
structure Protocol (S M σ W : Type) where
  /-- The name under which the protocol changes contexts. -/
  name : σ → String
  /-- The shapes that the hooks refer to by name. -/
  shapes : σ → List Shape
  initial : S
  mode : S → M
  /-- The next state, none if nothing is to be done, or a fault to answer with. -/
  transition : σ → W → Step → S → Except Violation (Reply σ W (Except Fault (Option S)))
  /-- The state to move to after a warning or an error. -/
  errorState : σ → S := fun _ => initial
  /-- Runs when the mode changes, and gives the state to be in. -/
  enter : σ → W → Step → S → Except Violation (Reply σ W S) :=
    fun data world step state => .ok ⟨state, data, world, step.context, false⟩
  /-- Whether the mode of a state resumes the state it was left in. -/
  keepsHistory : σ → S → Bool := fun _ _ => false
  reset : σ → W → σ × W := fun data world => (data, world)
  attach : Storage W → σ → σ := fun _ data => data
  secInfos : σ → Publicity → List Object := fun _ _ => []

end SmartCard
