import SmartCard.Command.Codec

/-!
Commands that were derived from other commands, such as the plain command behind a protected one.
A handle tells apart two commands that happen to be written alike.
-/

namespace SmartCard

/-- What tells a handle from all others: its number, and who gave it. -/
inductive Serial where
  /-- The commands that a card received, in order. -/
  | received (number : Nat)
  /-- Commands that were made by other means. -/
  | issued (number : Nat)
deriving DecidableEq, Repr

/-- A command together with the commands it was derived from, nearest first. -/
structure Handle where
  serial : Serial
  command : Command
  ancestors : List (Serial × Command)
deriving DecidableEq, Repr

namespace Handle

def root (serial : Serial) (command : Command) : Handle :=
  ⟨serial, command, []⟩

def derive (parent : Handle) (serial : Serial) (command : Command) : Handle :=
  ⟨serial, command, (parent.serial, parent.command) :: parent.ancestors⟩

/-- The commands that a command was derived from, nearest first. -/
def predecessors (handle : Handle) : List Command :=
  handle.ancestors.map (·.2)

/-- A command and the commands it was derived from. -/
def chain (handle : Handle) : List Command :=
  handle.command :: handle.predecessors

/-- Whether `ancestor` itself, not a command written alike, is among the predecessors. -/
def descendsFrom (handle ancestor : Handle) : Bool :=
  handle.ancestors.any (·.1 = ancestor.serial)

/-- Whether two handles stand for the same commands, predecessors included. -/
def looksLike (a b : Handle) : Bool :=
  a.chain = b.chain

end Handle

/-- Handles in the order in which they were issued, each numbered by its place. -/
structure Pool where
  handles : List Handle

namespace Pool

def empty : Pool :=
  ⟨[]⟩

/-- The serial that no handle of the pool has yet. -/
def nextSerial (pool : Pool) : Serial :=
  .issued pool.handles.length

/-- Issues a handle for a command, derived from `parent` if one is given. -/
def issue (pool : Pool) (command : Command) (parent : Option Handle) : Handle × Pool :=
  let handle := match parent with
    | none => Handle.root pool.nextSerial command
    | some parent => parent.derive pool.nextSerial command
  (handle, ⟨pool.handles ++ [handle]⟩)

end Pool

end SmartCard
