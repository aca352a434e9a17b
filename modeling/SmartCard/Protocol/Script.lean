import SmartCard.Protocol.Basic

/-!
Protocols given by rules. The first rule whose guards hold says what is done and where to move. A
script logs the rules it takes and the states it enters.
-/

namespace SmartCard

namespace Script

/-- The states of a script; two of its modes count. -/
inductive State where
  | idle
  | opened (number : UInt8)
  | work (number : UInt8)
  | done
deriving DecidableEq, Repr

namespace State

def mode : State → String
  | idle => "Idle"
  | opened _ => "Open"
  | work _ => "Work"
  | done => "Done"

def text : State → String
  | idle => "Idle"
  | opened number => "Open(" ++ number.toNat.repr ++ ")"
  | work number => "Work(" ++ number.toNat.repr ++ ")"
  | done => "Done"

/-- Counts on, from 255 to 0. -/
def next : State → State
  | idle => idle
  | opened number => opened (number + 1)
  | work number => work (number + 1)
  | done => done

def all : List State :=
  let numbers := (List.range 256).map UInt8.ofNat
  idle :: done :: (numbers.map opened ++ numbers.map work)

/-- The state that is written in a certain way. -/
def ofText? (written : String) : Option State :=
  all.find? (·.text = written)

end State

/-- A condition on the command that is processed. -/
inductive Guard where
  | shape (id : String)
  | status (status : StatusWord)
  | retryCounter
  | failed
  | answered
  | negated (guard : Guard)

def Guard.holds (step : Step) : Guard → Bool
  | shape id => step.hasShape id
  | status sw => step.hasStatus sw
  | retryCounter => step.hasRetryCounter
  | failed => step.hasFailed
  | answered => step.isAnswered
  | negated guard => !guard.holds step

/-- A command to go on with. -/
structure Successor where
  command : Command
  /-- Whether it is derived from the command that is current before the action. -/
  derived : Bool

inductive Deed where
  | respond (response : Response)
  | stop
  | propagate (propagation : Propagation)
  /-- Applies deltas, each with the command that it brings. -/
  | apply (deltas : List (Option Successor × Delta))
  /-- Logs the verdict of a shape. -/
  | verdict (id : String)
  /-- Logs what a hook can see. -/
  | probe
  | nothing

/-- Something to be done, with the message it is recorded under. -/
structure Action where
  message : String
  deed : Deed

/-- Where a rule moves to. -/
inductive Target where
  | nowhere
  | stay
  | next
  | state (state : State)
  | fault (fault : Fault)

/-- What a rule moves to from a state. -/
def Target.resolve (state : State) : Target → Except Fault (Option State)
  | nowhere => .ok none
  | stay => .ok (some state)
  | next => .ok (some state.next)
  | .state chosen => .ok (some chosen)
  | fault raised => .error raised

structure Rule where
  /-- The mode or the state in which the rule applies; `*` stands for all. -/
  scope : String
  guards : List Guard
  actions : List Action
  target : Target

def Rule.applies (rule : Rule) (step : Step) (state : State) : Bool :=
  (rule.scope = "*" || rule.scope = state.mode || rule.scope = state.text) &&
    rule.guards.all (·.holds step)

/-- What is done on the way into a mode. -/
structure Entry where
  actions : List Action
  /-- The state to be in afterwards, unless it is the one that was chosen. -/
  target : Option State

end Script

/-- A protocol given by rules. -/
structure Script where
  name : String
  shapes : List Shape
  rules : List Script.Rule
  entries : List (String × Script.Entry)
  history : List String
  errorState : Script.State
  infos : Publicity → List Object
  log : List String

namespace Script

def note (script : Script) (line : String) : Script :=
  { script with log := script.log ++ [script.name ++ ": " ++ line] }

/-- The lines logged so far, and the script without them. -/
def takeLog (script : Script) : List String × Script :=
  (script.log, { script with log := [] })

private def flag (value : Bool) : String :=
  if value then "true" else "false"

/-- What a hook can see, in one line. -/
def probeText (step : Step) : String :=
  "probe processed=" ++ flag step.isAnswered ++ " warn_or_err=" ++ flag step.hasFailed ++
    " counter=" ++ flag step.hasRetryCounter ++ " finished=" ++ flag step.context.isFinished ++
    " ins=" ++ Bytes.upperHex [step.command.command.ins]

/-- A verdict on the current command, in one line. -/
def verdictText (step : Step) (id : String) : String :=
  "verdict " ++ id ++ ": " ++ ((step.verdict? id).map (·.text)).getD "unknown"

section

variable {W : Type} (issue : W → Serial × W)

/-- Deltas with handles for the commands they bring, numbered by `issue`. -/
def place (parent : Handle) : List (Option Successor × Delta) → W → List Delta × W
  | [], world => ([], world)
  | (none, delta) :: rest, world =>
    let (deltas, world) := place parent rest world
    (delta :: deltas, world)
  | (some successor, delta) :: rest, world =>
    let (serial, world) := issue world
    let handle := if successor.derived then parent.derive serial successor.command
      else Handle.root serial successor.command
    let (deltas, world) := place parent rest world
    ({ delta with command := some handle } :: deltas, world)

def act (registry : Registry) (reply : Reply Script W Unit) (action : Action) :
    Except Violation (Reply Script W Unit) :=
  let script := reply.data
  let step : Step := ⟨script.name, registry, reply.context⟩
  match action.deed with
  | .respond response =>
    .ok { reply with context := reply.context.respond script.name action.message response }
  | .stop => .ok { reply with stop := true }
  | .propagate propagation =>
    .ok { reply with context := reply.context.propagate script.name action.message propagation }
  | .apply deltas =>
    let (deltas, world) := place issue step.command deltas reply.world
    (reply.context.apply script.name action.message deltas).map fun context =>
      { reply with world, context }
  | .verdict id => .ok { reply with data := script.note (verdictText step id) }
  | .probe => .ok { reply with data := script.note (probeText step) }
  | .nothing => .ok reply

/-- Runs actions one after the other, and gives `value`. -/
def run {α : Type} (script : Script) (world : W) (step : Step) (actions : List Action) (value : α) :
    Except Violation (Reply Script W α) :=
  (actions.foldlM (act issue step.registry) ⟨(), script, world, step.context, false⟩).map
    fun reply => ⟨value, reply.data, reply.world, reply.context, reply.stop⟩

/-- The protocol, with new commands numbered by `issue`. -/
def protocol : Protocol State String Script W where
  name := name
  shapes := shapes
  initial := .idle
  mode := State.mode
  transition script world step state :=
    match script.rules.zipIdx.find? (·.1.applies step state) with
    | none => run issue (script.note ("no rule in " ++ state.text)) world step [] (.ok none)
    | some (rule, index) =>
      run issue (script.note ("rule " ++ index.repr ++ " in " ++ state.text)) world step
        rule.actions (rule.target.resolve state)
  errorState := errorState
  enter script world step state :=
    let entry := (script.entries.lookup state.mode).getD ⟨[], none⟩
    run issue (script.note ("enter " ++ state.text)) world step entry.actions
      (entry.target.getD state)
  keepsHistory script state := script.history.contains state.mode
  reset script world := (script.note "reset", world)
  attach _ script := script.note "accessor"
  secInfos := infos

end

end Script

end SmartCard
