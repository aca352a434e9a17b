import SmartCard.Command.Lineage
import SmartCard.Response
import SmartCard.Context.Propagation

/-!
The state of one command while it is processed. It changes only by deltas, and each of them is
kept in a history.
-/

namespace SmartCard

/-- One change to a context. -/
structure Delta where
  /-- The command that takes the place of the current one. -/
  command : Option Handle
  response : Option Response
  /-- Announcements with the kinds that they are declared to be of. -/
  propagations : List (Propagation.Kind × Propagation)
deriving DecidableEq

namespace Delta

def empty : Delta :=
  ⟨none, none, []⟩

def ofCommand (command : Handle) : Delta :=
  { empty with command := some command }

def ofResponse (response : Response) : Delta :=
  { empty with response := some response }

/-- Adds an announcement under its own kind. -/
def propagate (delta : Delta) (propagation : Propagation) : Delta :=
  { delta with propagations := delta.propagations ++ [(propagation.kind, propagation)] }

/-- Adds an announcement under a declared kind; one of another kind is recorded but not kept. -/
def propagateAs (delta : Delta) (kind : Propagation.Kind) (propagation : Propagation) : Delta :=
  { delta with propagations := delta.propagations ++ [(kind, propagation)] }

def isEmpty (delta : Delta) : Bool :=
  delta.command.isNone && delta.response.isNone && delta.propagations.isEmpty

/-- The announcements that are of the kind they are declared to be of. -/
def accepted (delta : Delta) : List Propagation :=
  delta.propagations.filterMap fun (kind, propagation) =>
    if propagation.kind = kind then some propagation else none

end Delta

/-- A delta that was applied, with who applied it and why. -/
structure Record where
  initiator : String
  message : String
  delta : Delta
deriving DecidableEq

/-- The state of one command while it is processed. -/
structure Context where
  command : Handle
  response : Option Response
  /-- The announcements kept so far, of all kinds. -/
  announced : List Propagation
  /-- The deltas applied so far, oldest first. -/
  history : List Record
deriving DecidableEq

/-- The current command was to be replaced by one that does not descend from it. -/
structure Violation where
  initiator : String
  current : Command
  unrelated : Command
deriving DecidableEq

def Violation.message (violation : Violation) : String :=
  violation.initiator ++ " replaced " ++ Bytes.listing violation.current.encode ++
    " with the unrelated command " ++ Bytes.listing violation.unrelated.encode

namespace Context

def start (command : Handle) : Context :=
  ⟨command, none, [], []⟩

def propagations (context : Context) (kind : Propagation.Kind) : List Propagation :=
  context.announced.filter (·.kind = kind)

/-- Whether the response concludes the processing of the command. -/
def isFinished (context : Context) : Bool :=
  context.response.any fun response => !response.status.isIntermediate

/-- Takes over what a record holds and appends it to the history. -/
def record (context : Context) (entry : Record) : Context where
  command := entry.delta.command.getD context.command
  response := entry.delta.response.or context.response
  announced := context.announced ++ entry.delta.accepted
  history := context.history ++ [entry]

/-- Applies one delta, unless it is empty. A command that it brings has to descend from the
current one. -/
def applyDelta (context : Context) (initiator message : String) (delta : Delta) :
    Except Violation Context :=
  if delta.isEmpty then
    .ok context
  else
    match delta.command with
    | some command =>
      if command.descendsFrom context.command then
        .ok (context.record ⟨initiator, message, delta⟩)
      else
        .error ⟨initiator, context.command.command, command.command⟩
    | none => .ok (context.record ⟨initiator, message, delta⟩)

/-- Applies deltas in order. -/
def apply (context : Context) (initiator message : String) :
    List Delta → Except Violation Context
  | [] => .ok context
  | delta :: rest =>
    match context.applyDelta initiator message delta with
    | .ok context => context.apply initiator message rest
    | .error violation => .error violation

/-- Sets the response. -/
def respond (context : Context) (initiator message : String) (response : Response) : Context :=
  context.record ⟨initiator, message, .ofResponse response⟩

/-- Announces something. -/
def propagate (context : Context) (initiator message : String) (propagation : Propagation) :
    Context :=
  context.record ⟨initiator, message, Delta.empty.propagate propagation⟩

theorem apply_ofResponse (context : Context) (initiator message : String) (response : Response) :
    context.apply initiator message [.ofResponse response] =
      .ok (context.respond initiator message response) := rfl

theorem apply_propagate (context : Context) (initiator message : String)
    (propagation : Propagation) :
    context.apply initiator message [Delta.empty.propagate propagation] =
      .ok (context.propagate initiator message propagation) := rfl

end Context

end SmartCard
