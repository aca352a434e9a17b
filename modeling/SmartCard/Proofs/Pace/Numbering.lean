import SmartCard.Proofs.Pace.Erasure

/-!
# Numbering

PACE looks at commands, and not at what tells a command from another one that is written alike. So
the numbers that a card has given to the commands before make no difference to what it does.
-/

namespace SmartCard

/-- A verdict depends on how a command and its predecessors are written. -/
theorem Shape.verdict_of_looksLike (shape : Shape) {a b : Handle} (h : a.looksLike b = true) :
    shape.verdict a = shape.verdict b := by
  have hchain : a.chain = b.chain := of_decide_eq_true h
  have hcommand : a.command = b.command := (List.cons.inj hchain).1
  have hviolation : shape.violation? a = shape.violation? b := by
    funext check
    cases check <;> simp only [violation?, hcommand, hchain]
  rw [verdict, verdict, hviolation]

/-- The same context for another command. -/
def Context.withCommand (handle : Handle) (context : Context) : Context :=
  { context with command := handle }

namespace Pace

variable {μ W : Type} {mechanism : Mechanism μ}

/-! ### Transitions -/

theorem act_congr (pace : Pace μ W) (world : W) {step other : Step} (state : State)
    (hverdict : ∀ id, other.verdict? id = step.verdict? id)
    (hcommand : other.command.command = step.command.command) :
    pace.act mechanism world other state = pace.act mechanism world step state := by
  have hshape : ∀ id, other.hasShape id = step.hasShape id := by
    intro id
    rw [Step.hasShape, Step.hasShape, hverdict]
  have hselection : ∀ options, readSelection options other = readSelection options step := by
    intro options
    rw [readSelection, readSelection, hverdict, hcommand]
  have hdata : ∀ inner, authenticationData other inner = authenticationData step inner := by
    intro inner
    rw [authenticationData, authenticationData, hcommand]
  cases state with
  | established => rfl
  | idle => simp only [act, select, hshape, hselection]
  | authenticating progress =>
    cases progress <;>
      simp only [act, select, authenticate, mapNonce, agreeOnKey, mutualAuthenticate, hshape,
        hselection, hdata]

theorem act_withCommand (pace : Pace μ W) (world : W) (registry : Registry) {context : Context}
    {handle : Handle} (state : State) (hlike : handle.looksLike context.command = true) :
    pace.act mechanism world ⟨name, registry, context.withCommand handle⟩ state =
      pace.act mechanism world ⟨name, registry, context⟩ state := by
  have hchain : handle.chain = context.command.chain := of_decide_eq_true hlike
  refine act_congr pace world state ?_ (List.cons.inj hchain).1
  intro id
  unfold Step.verdict?
  congr 1
  funext shape
  exact shape.verdict_of_looksLike hlike

theorem recordIn_withCommand (handle : Handle) (context : Context) (note : Note) :
    note.recordIn name (context.withCommand handle) =
      (note.recordIn name context).withCommand handle := by
  cases note <;> rfl

theorem notes_withCommand (handle : Handle) (notes : List Note) (context : Context) :
    notes.foldl (Note.recordIn name) (context.withCommand handle) =
      (notes.foldl (Note.recordIn name) context).withCommand handle := by
  induction notes generalizing context with
  | nil => rfl
  | cons note rest ih => rw [List.foldl_cons, recordIn_withCommand, ih, List.foldl_cons]

theorem command_notes (notes : List Note) (context : Context) :
    (notes.foldl (Note.recordIn name) context).command = context.command := by
  induction notes generalizing context with
  | nil => rfl
  | cons note rest ih =>
    rw [List.foldl_cons, ih]
    cases note <;> rfl

section

variable (outcome : Outcome μ W) (handle : Handle) (context : Context) (state : State)

theorem answered_withCommand :
    outcome.answered (context.withCommand handle) =
      (outcome.answered context).withCommand handle := by
  unfold Outcome.answered
  rw [notes_withCommand]
  cases outcome.next <;> rfl

theorem command_answered : (outcome.answered context).command = context.command := by
  rw [← command_notes outcome.notes context]
  unfold Outcome.answered
  cases outcome.next <;> rfl

theorem settled_withCommand :
    outcome.settled (context.withCommand handle) state = outcome.settled context state := by
  unfold Outcome.settled
  rw [answered_withCommand]
  rfl

end

/-! ### Commands -/

/-- The same for another command. -/
def Run.withCommand (handle : Handle) (run : Engine.Run State Mode (Pace μ W) W) :
    Engine.Run State Mode (Pace μ W) W :=
  { run with context := run.context.withCommand handle }

theorem advance_withCommand {handle : Handle} {run : Engine.Run State Mode (Pace μ W) W}
    (hlike : handle.looksLike run.context.command = true) :
    Engine.advance (protocol mechanism) name (Run.withCommand handle run) =
      (Engine.advance (protocol mechanism) name run).map (Run.withCommand handle) := by
  rw [advance_eq, advance_eq]
  simp only [Run.withCommand, act_withCommand _ _ _ _ hlike, answered_withCommand,
    settled_withCommand, Except.map]

theorem command_of_advance {run next : Engine.Run State Mode (Pace μ W) W}
    (h : Engine.advance (protocol mechanism) name run = .ok next) :
    next.context.command = run.context.command := by
  rw [advance_eq] at h
  cases h
  exact command_answered ..

theorem loop_withCommand {handle : Handle} (limit : Nat)
    {run : Engine.Run State Mode (Pace μ W) W}
    (hlike : handle.looksLike run.context.command = true) :
    Engine.loop (protocol mechanism) name limit (Run.withCommand handle run) =
      (Engine.loop (protocol mechanism) name limit run).map (Run.withCommand handle) := by
  refine Engine.loop_map (f := Run.withCommand handle)
    (P := fun run => handle.looksLike run.context.command = true) (fun _ => rfl) ?_
    (fun _ hlike => advance_withCommand hlike) ?_ limit fun _ => hlike
  · intro run
    rw [giveUp_eq, giveUp_eq]
    rfl
  · intro run next hlike hadvance _
    rwa [command_of_advance hadvance]

/-- What a command comes to does not depend on which handle stands for it. -/
theorem process_withCommand {handle : Handle} (engine : Driver μ W) (world : W) {context : Context}
    (hlike : handle.looksLike context.command = true) :
    Engine.process (protocol mechanism) engine world (context.withCommand handle) =
      (Engine.process (protocol mechanism) engine world context).map
        fun (engine, world, context) => (engine, world, context.withCommand handle) := by
  let run : Engine.Run State Mode (Pace μ W) W := ⟨engine, world, context, false⟩
  have hrun : handle.looksLike run.context.command = true := hlike
  have hloop : Engine.loop (protocol mechanism) name engine.maxTransitions
      ⟨engine, world, context.withCommand handle, false⟩ = _ :=
    loop_withCommand engine.maxTransitions hrun
  rw [process_eq, process_eq, hloop]
  cases Engine.loop (protocol mechanism) name engine.maxTransitions run <;> rfl

/-! ### Cards -/

namespace Emulation

/-- The same card after further commands were numbered. -/
def renumber (further : Nat) (emulation : Emulation μ W) : Emulation μ W :=
  { emulation with card :=
    { emulation.card with received := further + emulation.card.received } }

theorem concluded_withCommand (options : Card.Options) (handle : Handle) (context : Context) :
    concluded options (context.withCommand handle) =
      (concluded options context).withCommand handle := by
  unfold concluded
  have hresponse : (context.withCommand handle).response = context.response := rfl
  rw [hresponse]
  cases context.response <;> rfl

theorem step_renumber (further : Nat) {emulation : Emulation μ W} {engine : Driver μ W}
    (hhandlers : emulation.card.handlers = [engine]) (input : Input) :
    (emulation.renumber further).step mechanism input =
      (emulation.step mechanism input).map fun (output, next) =>
        (output, next.renumber further) := by
  cases input with
  | reset | resetHistory => rfl
  | handle bytes =>
    rw [step, step, Card.handle, Card.handle]
    cases Command.decode bytes with
    | error error => rfl
    | ok command =>
      let first := Handle.root (.received emulation.card.received) command
      let later := Handle.root (.received (further + emulation.card.received)) command
      have hchain : later.chain = first.chain := rfl
      have hlike : later.looksLike (Context.start first).command = true := decide_eq_true hchain
      have hlater : (emulation.renumber further).card.handlers = [engine] := hhandlers
      have hprocess : engine.process (protocol mechanism) (emulation.renumber further).world
          (.start (.root (.received (emulation.renumber further).card.received) command)) = _ :=
        process_withCommand engine emulation.world hlike
      dsimp only
      rw [process_of_handlers mechanism hlater, process_of_handlers mechanism hhandlers, hprocess]
      cases engine.process (protocol mechanism) emulation.world (.start first) with
      | error violation => rfl
      | ok answer =>
        simp only [Except.map, renumber, concluded_withCommand]
        rfl

end Emulation

end Pace

end SmartCard
