import SmartCard.Protocol.Engine

/-!
Cards: a list of handlers that are offered every command in turn, until one of them has given a
final response.
-/

namespace SmartCard

/-- What a card needs of a part `H` that processes commands over a persistent state `W`. -/
structure Handler (H W : Type) where
  name : H → String
  process : H → W → Context → Except Violation (H × W × Context)
  reset : H → W → H × W
  resetHistory : H → H
  attach : Storage W → H → H
  secInfos : H → Publicity → List Object

/-- The engines of a protocol as handlers. -/
def Protocol.handler {S M σ W : Type} [DecidableEq M] (protocol : Protocol S M σ W) :
    Handler (Engine S M σ) W where
  name engine := protocol.name engine.data
  process := Engine.process protocol
  reset := Engine.reset protocol
  resetHistory := Engine.resetHistory
  attach storage engine := { engine with data := protocol.attach storage engine.data }
  secInfos engine := protocol.secInfos engine.data

/-- Two sorts of handlers as one. -/
def Handler.sum {A B W : Type} (left : Handler A W) (right : Handler B W) : Handler (A ⊕ B) W where
  name
    | .inl part => left.name part
    | .inr part => right.name part
  process part world context :=
    match part with
    | .inl part =>
      (left.process part world context).map fun (part, world, context) =>
        (.inl part, world, context)
    | .inr part =>
      (right.process part world context).map fun (part, world, context) =>
        (.inr part, world, context)
  reset part world :=
    match part with
    | .inl part => let (part, world) := left.reset part world; (.inl part, world)
    | .inr part => let (part, world) := right.reset part world; (.inr part, world)
  resetHistory
    | .inl part => .inl (left.resetHistory part)
    | .inr part => .inr (right.resetHistory part)
  attach storage
    | .inl part => .inl (left.attach storage part)
    | .inr part => .inr (right.attach storage part)
  secInfos part publicity :=
    match part with
    | .inl part => left.secInfos part publicity
    | .inr part => right.secInfos part publicity

namespace Card

structure Options where
  /-- How many transitions a protocol may take for one command. -/
  maxTransitions : Nat := Engine.defaultMaxTransitions
  /-- The answer to a command that no handler answered. -/
  unhandledStatus : StatusWord := .instructionNotSupported
  traceHistory : Bool := false
deriving DecidableEq

end Card

/-- A card with its handlers in the order in which they are offered commands. -/
structure Card (H W : Type) where
  storage : Storage W
  handlers : List H
  options : Card.Options
  /-- How many commands were received as bytes. -/
  received : Nat

namespace Card

def new {H W : Type} (storage : Storage W) (options : Options) : Card H W :=
  ⟨storage, [], options, 0⟩

section

variable {H W : Type} (handler : Handler H W)

/-- Adds a handler and hands it the access to the persistent state. -/
def withHandler (card : Card H W) (part : H) : Card H W :=
  { card with handlers := card.handlers ++ [handler.attach card.storage part] }

/-- Offers a context to handlers in turn, until it is finished. -/
def offer : List H → W → Context → Except Violation (List H × W × Context)
  | [], world, context => .ok ([], world, context)
  | part :: rest, world, context =>
    if context.isFinished then
      .ok (part :: rest, world, context)
    else
      match handler.process part world context with
      | .error violation => .error violation
      | .ok (part, world, context) =>
        match offer rest world context with
        | .error violation => .error violation
        | .ok (rest, world, context) => .ok (part :: rest, world, context)

/-- Processes a command. One that no handler answered is answered by the card. -/
def process (card : Card H W) (world : W) (command : Handle) :
    Except Violation (Card H W × W × Context) :=
  match offer handler card.handlers world (.start command) with
  | .error violation => .error violation
  | .ok (handlers, world, context) =>
    let context := match context.response with
      | some _ => context
      | none => context.respond "card" "unhandled command" (.ofStatus card.options.unhandledStatus)
    .ok ({ card with handlers }, world, context)

/-- Handles a command given as bytes; bytes that are not a command have the wrong length. -/
def handle (card : Card H W) (world : W) (bytes : Bytes) :
    Except Violation (Card H W × W × Response) :=
  match Command.decode bytes with
  | .error _ => .ok (card, world, .ofStatus .wrongLength)
  | .ok command =>
    let command := Handle.root (.received card.received) command
    match card.process handler world command with
    | .error violation => .error violation
    | .ok (card, world, context) =>
      .ok ({ card with received := card.received + 1 }, world,
        context.response.getD (.ofStatus card.options.unhandledStatus))

def resetAll : List H → W → List H × W
  | [], world => ([], world)
  | part :: rest, world =>
    let (part, world) := handler.reset part world
    let (rest, world) := resetAll rest world
    (part :: rest, world)

def reset (card : Card H W) (world : W) : Card H W × W :=
  let (handlers, world) := resetAll handler card.handlers world
  ({ card with handlers }, world)

/-- Forgets what handlers resume in later sessions. -/
def resetHistory (card : Card H W) : Card H W :=
  { card with handlers := card.handlers.map handler.resetHistory }

def setTag : Tag :=
  ⟨[0x31], rfl⟩

/-- The security information of all handlers. -/
def secInfos (card : Card H W) (publicity : Publicity) : Object :=
  .constructed setTag (card.handlers.flatMap (handler.secInfos · publicity))

end

end Card

end SmartCard
