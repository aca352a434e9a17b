import SmartCard.Protocol.Basic

/-!
The engine of a protocol. It calls the transition hook again and again for one command, until a
hook asks to stop, nothing is to be done, a fault is raised or the limit is reached.
-/

namespace SmartCard

/-- A protocol in the course of a session. -/
structure Engine (S M σ : Type) where
  data : σ
  state : S
  /-- The states in which modes that keep history were left. -/
  history : List (M × S)
  registry : Registry
  /-- How many transitions a command may take. -/
  maxTransitions : Nat

/-- The processing of a command under way. -/
structure Engine.Run (S M σ W : Type) where
  engine : Engine S M σ
  world : W
  context : Context
  /-- Whether a hook asked to stop. -/
  stop : Bool

namespace Engine

/-- The limit of transitions that is used unless another is given. -/
def defaultMaxTransitions : Nat := 32

def start {S M σ W : Type} (protocol : Protocol S M σ W) (data : σ)
    (maxTransitions : Nat) : Engine S M σ :=
  ⟨data, protocol.initial, [], .ofList (protocol.shapes data), maxTransitions⟩

def register {S M σ : Type} (engine : Engine S M σ) (shape : Shape) : Engine S M σ :=
  { engine with registry := engine.registry.register shape }

def resetHistory {S M σ : Type} (engine : Engine S M σ) : Engine S M σ :=
  { engine with history := [] }

section

variable {S M σ W : Type} [DecidableEq M] (protocol : Protocol S M σ W)

/-- The history after `state` was left. -/
def remember (data : σ) (history : List (M × S)) (state : S) : List (M × S) :=
  if protocol.keepsHistory data state then
    (protocol.mode state, state) :: history.filter (·.1 ≠ protocol.mode state)
  else
    history

/-- The state to enter on the way to `next`: where its mode keeps history, the one it was left
in. -/
def resume (data : σ) (history : List (M × S)) (next : S) : S :=
  if protocol.keepsHistory data next then (history.lookup (protocol.mode next)).getD next else next

def reset (engine : Engine S M σ) (world : W) : Engine S M σ × W :=
  let history := remember protocol engine.data engine.history engine.state
  let (data, world) := protocol.reset engine.data world
  ({ engine with data, state := protocol.initial, history }, world)

/-- Moves to `next`, with the entry action if that is in another mode. -/
def moveTo (name : String) (run : Run S M σ W) (next : S) : Except Violation (Run S M σ W) :=
  let engine := run.engine
  if protocol.mode next = protocol.mode engine.state then
    .ok { run with engine := { engine with state := next } }
  else
    let history := remember protocol engine.data engine.history engine.state
    let target := resume protocol engine.data history next
    match protocol.enter engine.data run.world ⟨name, engine.registry, run.context⟩ target with
    | .error violation => .error violation
    | .ok reply =>
      .ok ⟨{ engine with data := reply.data, state := reply.value, history }, reply.world,
        reply.context, run.stop || reply.stop⟩

/-- Stops after nothing was done or a fault was raised. A warning or an error leads to the error
state. -/
def abort (name : String) (run : Run S M σ W) : Except Violation (Run S M σ W) :=
  let step : Step := ⟨name, run.engine.registry, run.context⟩
  if step.hasFailed then
    match moveTo protocol name run (protocol.errorState run.engine.data) with
    | .error violation => .error violation
    | .ok run => .ok { run with stop := true }
  else
    .ok { run with stop := true }

/-- One call of the transition hook, and what follows from its reply. -/
def advance (name : String) (run : Run S M σ W) : Except Violation (Run S M σ W) :=
  let engine := run.engine
  match protocol.transition engine.data run.world ⟨name, engine.registry, run.context⟩
      engine.state with
  | .error violation => .error violation
  | .ok reply =>
    let run : Run S M σ W :=
      ⟨{ engine with data := reply.data }, reply.world, reply.context, run.stop || reply.stop⟩
    match reply.value with
    | .ok (some next) => moveTo protocol name run next
    | .ok none => abort protocol name run
    | .error fault =>
      abort protocol name { run with
        context := run.context.respond name fault.reason (.ofStatus fault.status) }

/-- Answers a command that took too many transitions. -/
def giveUp (name : String) (run : Run S M σ W) : Except Violation (Run S M σ W) :=
  let run := { run with
    context := run.context.respond name "transition limit reached" (.ofStatus .unknownError) }
  moveTo protocol name run (protocol.errorState run.engine.data)

def loop (name : String) : (limit : Nat) → Run S M σ W → Except Violation (Run S M σ W)
  | 0, run => giveUp protocol name run
  | limit + 1, run =>
    match advance protocol name run with
    | .error violation => .error violation
    | .ok run => if run.stop then .ok run else loop name limit run

def process (engine : Engine S M σ) (world : W) (context : Context) :
    Except Violation (Engine S M σ × W × Context) :=
  match loop protocol (protocol.name engine.data) engine.maxTransitions
      ⟨engine, world, context, false⟩ with
  | .error violation => .error violation
  | .ok run => .ok (run.engine, run.world, run.context)

end

end Engine

end SmartCard
