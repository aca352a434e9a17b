import SmartCard.Proofs.Pace.Session

/-!
# Cards with PACE

A card whose only protocol is PACE takes commands as bytes. Apart from bytes that are not a command,
its engine sees what the engine of a session sees.
-/

namespace SmartCard.Pace

variable {μ W : Type}

/-- A card together with its persistent state. -/
structure Emulation (μ W : Type) where
  card : Card (Driver μ W) W
  world : W

namespace Emulation

/-- What happens to a card. -/
inductive Input where
  | handle (bytes : Bytes)
  | reset
  | resetHistory

/-- A card with PACE that has not seen any command. -/
def start (mechanism : Mechanism μ) (storage : Storage W) (data : μ) (paceOptions : Options)
    (options : Card.Options) (world : W) : Emulation μ W :=
  ⟨(Card.new storage options).withHandler (protocol mechanism).handler
    (.start (protocol mechanism : Protocol State Mode (Pace μ W) W) (.new data paceOptions)
      options.maxTransitions), world⟩

def step (mechanism : Mechanism μ) (emulation : Emulation μ W) :
    Input → Except Violation (Option Response × Emulation μ W)
  | .handle bytes =>
    match emulation.card.handle (protocol mechanism).handler emulation.world bytes with
    | .error violation => .error violation
    | .ok (card, world, response) => .ok (some response, ⟨card, world⟩)
  | .reset =>
    let (card, world) := emulation.card.reset (protocol mechanism).handler emulation.world
    .ok (none, ⟨card, world⟩)
  | .resetHistory =>
    .ok (none, ⟨emulation.card.resetHistory (protocol mechanism).handler, emulation.world⟩)

/-- The context of a command with the answer of the card, if there is no other. -/
def concluded (options : Card.Options) (context : Context) : Context :=
  match context.response with
  | some _ => context
  | none => context.respond "card" "unhandled command" (.ofStatus options.unhandledStatus)

/-- A card with one engine processes a command as the engine does. -/
theorem process_of_handlers (mechanism : Mechanism μ) {card : Card (Driver μ W) W}
    {engine : Driver μ W} (hhandlers : card.handlers = [engine]) (world : W) (command : Handle) :
    card.process (protocol mechanism).handler world command =
      (engine.process (protocol mechanism) world (.start command)).map
        fun (engine, world, context) =>
          ({ card with handlers := [engine] }, world, concluded card.options context) := by
  have hhandler : (protocol mechanism).handler.process engine world (.start command) =
      engine.process (protocol mechanism) world (.start command) := rfl
  rw [Card.process, hhandlers, Card.offer, if_neg (by simp [Context.isFinished, Context.start]),
    hhandler]
  cases engine.process (protocol mechanism) world (.start command) <;> rfl

/-- A card keeps its access to the card state and its options. -/
theorem frame_of_step {mechanism : Mechanism μ} {emulation next : Emulation μ W} {input : Input}
    {output : Option Response} (h : emulation.step mechanism input = .ok (output, next)) :
    next.card.storage = emulation.card.storage ∧ next.card.options = emulation.card.options := by
  cases input with
  | reset | resetHistory =>
    cases h
    exact ⟨rfl, rfl⟩
  | handle bytes =>
    rw [step, Card.handle] at h
    cases hdecode : Command.decode bytes with
    | error error =>
      rw [hdecode] at h
      cases h
      exact ⟨rfl, rfl⟩
    | ok command =>
      rw [hdecode] at h
      dsimp only at h
      rw [Card.process] at h
      cases hoffer : Card.offer (protocol mechanism).handler emulation.card.handlers
          emulation.world (.start (.root (.received emulation.card.received) command)) with
      | error violation =>
        rw [hoffer] at h
        cases h
      | ok answer =>
        rw [hoffer] at h
        cases h
        exact ⟨rfl, rfl⟩

/-- What becomes of the engine of a card. -/
inductive Steps (mechanism : Mechanism μ) (engine : Driver μ W) (world : W) :
    Input → Driver μ W → W → Prop
  | malformed {bytes : Bytes} (hdecode : ∀ command, Command.decode bytes ≠ .ok command) :
      Steps mechanism engine world (.handle bytes) engine world
  | command {bytes : Bytes} {context context' : Context} {engine' : Driver μ W} {world' : W}
      (hanswers : Answers mechanism engine world context engine' world' context') :
      Steps mechanism engine world (.handle bytes) engine' world'
  | reset :
      Steps mechanism engine world .reset
        { engine with data := engine.data.endSession mechanism, state := .idle } world
  | resetHistory : Steps mechanism engine world .resetHistory engine.resetHistory world

theorem steps_step (mechanism : Mechanism μ) {emulation : Emulation μ W} {engine : Driver μ W}
    (hhandlers : emulation.card.handlers = [engine]) (input : Input) :
    ∃ output emulation' engine', emulation.step mechanism input = .ok (output, emulation') ∧
      emulation'.card.handlers = [engine'] ∧
      Steps mechanism engine emulation.world input engine' emulation'.world := by
  cases input with
  | reset =>
    let engine' : Driver μ W :=
      { engine with data := engine.data.endSession mechanism, state := .idle }
    have hreset : emulation.card.reset (protocol mechanism).handler emulation.world =
        ({ emulation.card with handlers := [engine'] }, emulation.world) := by
      rw [Card.reset, hhandlers]
      rfl
    refine ⟨none, ⟨{ emulation.card with handlers := [engine'] }, emulation.world⟩, engine', ?_,
      rfl, .reset⟩
    rw [step, hreset]
  | resetHistory =>
    refine ⟨none, _, engine.resetHistory, rfl, ?_, .resetHistory⟩
    rw [Card.resetHistory, hhandlers]
    rfl
  | handle bytes =>
    cases hdecode : Command.decode bytes with
    | error error =>
      refine ⟨some (.ofStatus .wrongLength), emulation, engine, ?_, hhandlers, .malformed ?_⟩
      · rw [step, Card.handle, hdecode]
      · rw [hdecode]
        exact nofun
    | ok command =>
      obtain ⟨engine', world', context', hprocess, hanswers⟩ :=
        process_answers mechanism engine emulation.world
          (.start (.root (.received emulation.card.received) command))
      have hcard := process_of_handlers mechanism hhandlers emulation.world
        (.root (.received emulation.card.received) command)
      rw [hprocess] at hcard
      refine ⟨some ((concluded emulation.card.options context').response.getD
          (.ofStatus emulation.card.options.unhandledStatus)),
        ⟨{ emulation.card with
          handlers := [engine'], received := emulation.card.received + 1 }, world'⟩, engine', ?_,
        rfl, .command hanswers⟩
      rw [step, Card.handle, hdecode]
      dsimp only
      rw [hcard]
      rfl

end Emulation

end SmartCard.Pace
