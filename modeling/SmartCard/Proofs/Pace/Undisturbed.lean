import SmartCard.Proofs.Pace.Renewal
import SmartCard.Proofs.Pace.Selecting

/-!
# Commands beside an authentication

Commands that are not for PACE can come at any time of an authentication. The protocol leaves them
to the card, and nothing but the numbers of later commands tells that there were any.
-/

namespace SmartCard.Pace

variable {μ W : Type}

/-- A command with neither the instruction of the steps nor the instruction and the parameters of a
selection. -/
def Unrelated (command : Command) : Prop :=
  command.ins ≠ 0x86 ∧ (command.ins, command.p1, command.p2) ≠ (0x22, 0xC1, 0xA4)

instance (command : Command) : Decidable (Unrelated command) :=
  inferInstanceAs (Decidable (_ ∧ _))

/-! ### One command -/

section

variable {step : Step}

theorem hasShape_eq_false {shape : Shape} (hshape : step.registry.get? shape.id = some shape)
    (hlacks : ¬ (shape.verdict step.command).isMatch = true) : step.hasShape shape.id = false := by
  rw [hasShape_of_get? hshape]
  exact Bool.eq_false_iff.mpr hlacks

/-- An unrelated command has none of the shapes that are looked for. -/
theorem act_of_unrelated {state : State}
    (hown : ∀ shape ∈ shapes, step.registry.get? shape.id = some shape)
    (hunrelated : Unrelated step.command.command) (hstate : state ≠ .established)
    (mechanism : Mechanism μ) (pace : Pace μ W) (world : W) :
    pace.act mechanism world step state = .unmatched pace world := by
  obtain ⟨hins, hparameters⟩ := hunrelated
  have hselection : step.hasShape mseSetAt = false := by
    refine hasShape_eq_false (hown (anySelection mseSetAt) (by decide +kernel)) ?_
    rw [isMatch_anySelection_iff]
    rintro ⟨hins, hp1, hp2⟩
    rw [hins, hp1, hp2] at hparameters
    exact hparameters rfl
  have hstep : step.hasShape generalAuthenticate = false := by
    refine hasShape_eq_false (hown anyStep (by decide +kernel)) ?_
    rw [isMatch_anyStep_iff]
    exact hins
  have hdue : ∀ progress : Progress, step.hasShape progress.due = false := by
    intro progress
    have hmem : progress.shape ∈ shapes := by cases progress <;> decide +kernel
    refine hasShape_eq_false (hown progress.shape hmem) ?_
    rw [isMatch_shape_iff]
    exact fun h => hins h.1
  cases state with
  | established => exact absurd rfl hstate
  | idle => simp [act, hselection, hstep]
  | authenticating progress =>
    have hdue := hdue progress
    cases progress <;> rw [Progress.due] at hdue <;>
      simp [act, authenticate, hselection, hdue, hstep]

end

/-- An engine leaves an unrelated command alone. -/
theorem process_of_unrelated {engine : Driver μ W} {handle : Handle} (mechanism : Mechanism μ)
    (hlimit : 0 < engine.maxTransitions)
    (hown : ∀ shape ∈ shapes, engine.registry.get? shape.id = some shape)
    (hstate : engine.state ≠ .established) (hunrelated : Unrelated handle.command) (world : W) :
    engine.process (protocol mechanism) world (.start handle) =
      .ok (engine, world, .start handle) := by
  have hact : engine.data.act mechanism world ⟨name, engine.registry, .start handle⟩ engine.state =
      .unmatched engine.data world := by
    refine act_of_unrelated hown ?_ hstate mechanism engine.data world
    exact hunrelated
  have hprocess := process_of_stops mechanism engine world (.start handle) hlimit
    (by rw [hact]; rfl)
  rw [hact] at hprocess
  exact hprocess

namespace Emulation

/-- The answer of a card to bytes that none of its protocols answers. -/
def declined (options : Card.Options) (bytes : Bytes) : Response :=
  match Command.decode bytes with
  | .ok _ => .ofStatus options.unhandledStatus
  | .error _ => .ofStatus .wrongLength

theorem step_of_unrelated {emulation : Emulation μ W} {engine : Driver μ W} {bytes : Bytes}
    (mechanism : Mechanism μ) (hhandlers : emulation.card.handlers = [engine])
    (hlimit : 0 < engine.maxTransitions)
    (hown : ∀ shape ∈ shapes, engine.registry.get? shape.id = some shape)
    (hstate : engine.state ≠ .established)
    (hunrelated : ∀ command, Command.decode bytes = .ok command → Unrelated command) :
    ∃ further, emulation.step mechanism (.handle bytes) =
      .ok (some (declined emulation.card.options bytes), emulation.renumber further) := by
  rw [step, Card.handle, declined]
  cases hdecode : Command.decode bytes with
  | error error => exact ⟨0, by simp [renumber]⟩
  | ok command =>
    refine ⟨1, ?_⟩
    let handle := Handle.root (.received emulation.card.received) command
    have hprocess := process_of_unrelated mechanism hlimit hown hstate
      (show Unrelated handle.command from hunrelated command hdecode) emulation.world
    dsimp only
    rw [process_of_handlers mechanism hhandlers, hprocess]
    simp only [Except.map, renumber, ← hhandlers, Nat.add_comm 1]
    rfl

/-- A card with all that it was built from, and no keys that are left to be announced. -/
def Settled (setup : Setup μ W) (start : W) (emulation : Emulation μ W) : Prop :=
  ∃ engine, emulation.Lives setup start engine ∧ engine.state ≠ .established

theorem settled_of_step {setup : Setup μ W} {start : W} {emulation : Emulation μ W}
    (hsettled : emulation.Settled setup start) (input : Input) :
    ∃ output next, emulation.step setup.mechanism input = .ok (output, next) ∧
      next.Settled setup start := by
  obtain ⟨engine, hlives, hstate⟩ := hsettled
  obtain ⟨output, next, engine', hstep, hnext⟩ := lives_of_step hlives input
  obtain ⟨_, _, engine'', hsame, hhandlers, hsteps⟩ :=
    steps_step setup.mechanism hlives.handlers input
  rw [hstep] at hsame
  cases hsame
  obtain rfl : engine' = engine'' := by simpa using hnext.handlers.symm.trans hhandlers
  refine ⟨output, next, hstep, engine', hnext, ?_⟩
  generalize next.world = world at hsteps
  cases hsteps with
  | malformed | resetHistory => exact hstate
  | reset => exact idle_ne_established
  | command hanswers => exact state_ne_established_of_answers hstate hanswers

/-- A card that differs from another one only in how many commands it has numbered. -/
def Stands (setup : Setup μ W) (start : W) (emulation other : Emulation μ W) : Prop :=
  other.Settled setup start ∧ ∃ further, emulation = other.renumber further

/-- Inputs in between that are not for PACE are declined by the card, and do not matter to the
others: their answers are the same, and so are the engine, with the mechanism, and the card state in
the end. Other shapes may be registered beside those of the protocol, as long as it finds its
own. -/
theorem undisturbed_of_run (setup : Setup μ W) (hlimit : 0 < setup.maxTransitions)
    (hown : ∀ shape ∈ shapes, setup.registry.get? shape.id = some shape) (data : μ) (start : W)
    {inputs : List (Input ⊕ Bytes)}
    (hunrelated : ∀ bytes, .inr bytes ∈ inputs →
      ∀ command, Command.decode bytes = .ok command → Unrelated command) :
    ∃ turns plain,
      run (step setup.mechanism) (setup.build data start)
        (inputs.map (Sum.elim id .handle)) = .ok turns ∧
      run (step setup.mechanism) (setup.build data start)
        (inputs.filterMap Sum.getLeft?) = .ok plain ∧
      ownOutputs inputs turns = plain.map (·.output) ∧
      (∀ bytes turn, (.inr bytes, turn) ∈ inputs.zip turns →
        turn.output = some (declined setup.options bytes)) ∧
      (stateAfter (setup.build data start) turns).card.handlers =
        (stateAfter (setup.build data start) plain).card.handlers ∧
      (stateAfter (setup.build data start) turns).world =
        (stateAfter (setup.build data start) plain).world := by
  have hstart : Stands setup start (setup.build data start) (setup.build data start) := by
    refine ⟨⟨setup.engine data, lives_build setup data start, idle_ne_established⟩, 0, ?_⟩
    simp [renumber]
  have hsteps : ∀ emulation other input, Stands setup start emulation other →
      ∃ output next next', emulation.step setup.mechanism input = .ok (output, next) ∧
        other.step setup.mechanism input = .ok (output, next') ∧ Stands setup start next next' := by
    rintro _ other input ⟨hsettled, further, rfl⟩
    obtain ⟨output, next, hstep, hnext⟩ := settled_of_step hsettled input
    obtain ⟨engine, hlives, _⟩ := hsettled
    refine ⟨output, next.renumber further, next, ?_, hstep, hnext, further, rfl⟩
    rw [step_renumber further hlives.handlers, hstep]
    rfl
  have hbetween : ∀ bytes, .inr bytes ∈ inputs → ∀ emulation other,
      Stands setup start emulation other →
      ∃ next, emulation.step setup.mechanism (.handle bytes) =
        .ok (some (declined setup.options bytes), next) ∧ Stands setup start next other := by
    rintro bytes hmem _ other ⟨⟨engine, hlives, hstate⟩, further, rfl⟩
    have hhandlers : (other.renumber further).card.handlers = [engine] := hlives.handlers
    obtain ⟨more, hstep⟩ := step_of_unrelated setup.mechanism hhandlers
      (hlives.engine.limit ▸ hlimit) (hlives.engine.registry ▸ hown) hstate (hunrelated bytes hmem)
    have hoptions : (other.renumber further).card.options = setup.options := hlives.options
    rw [hoptions] at hstep
    exact ⟨_, hstep, ⟨engine, hlives, hstate⟩, more + further, by simp [renumber, Nat.add_assoc]⟩
  obtain ⟨turns, plain, hturns, hplain, hsame, hanswers, _, further, hlast⟩ :=
    run_between hsteps hbetween hstart
  refine ⟨turns, plain, hturns, hplain, hsame, hanswers, ?_, ?_⟩
  · rw [hlast]
    rfl
  · rw [hlast]
    rfl

/-- A card that has a shape of its own for the selection of files. -/
def filing : Setup Unit CardMemory :=
  ⟨trusting, .memory, .standard, [{ Shape.any "Select" with ins := .required 0xA4 }], 2, {}⟩

/-- An authentication with the access number. In between, a file is selected, there are bytes that
are not a command, and other templates than that of an authentication are set. -/
def interrupted : List (Input ⊕ Bytes) :=
  [.inl (.handle (selecting .can).command.encode), .inr [0x00, 0xA4, 0x00, 0x00],
    .inl (.handle (stepping 0x10 []).command.encode), .inr [0x00],
    .inl (.handle (stepping 0x10 [0x81, 0x01, 0xAA]).command.encode),
    .inl (.handle (stepping 0x10 [0x83, 0x01, 0xBB]).command.encode),
    .inr [0x00, 0x22, 0xC1, 0xB6],
    .inl (.handle (stepping 0x00 [0x85, 0x01, 0xCC]).command.encode)]

theorem undisturbed_of_run_interrupted :
    0 < filing.maxTransitions ∧
      (∀ shape ∈ shapes, filing.registry.get? shape.id = some shape) ∧
      (∀ bytes, .inr bytes ∈ interrupted →
        ∀ command, Command.decode bytes = .ok command → Unrelated command) ∧
      ∃ turns plain,
        run (step trusting) (filing.build () lastAttempt)
          (interrupted.map (Sum.elim id .handle)) = .ok turns ∧
        run (step trusting) (filing.build () lastAttempt)
          (interrupted.filterMap Sum.getLeft?) = .ok plain ∧
        ownOutputs interrupted turns = plain.map (·.output) ∧
        plain.map (fun turn => turn.output.map (·.status)) =
          [some ⟨0x90, 0x00⟩, some ⟨0x90, 0x00⟩, some ⟨0x90, 0x00⟩, some ⟨0x90, 0x00⟩,
            some ⟨0x90, 0x00⟩] := by
  have hown : ∀ shape ∈ shapes, filing.registry.get? shape.id = some shape := by decide +kernel
  have hunrelated : ∀ bytes, .inr bytes ∈ interrupted →
      ∀ command, Command.decode bytes = .ok command → Unrelated command := by
    intro bytes hmem command hdecode
    have hall : interrupted.all (Sum.elim (fun _ => true) fun bytes =>
        (Command.decode bytes).toOption.all (Unrelated ·)) = true := by decide +kernel
    simpa [hdecode, Except.toOption] using List.all_eq_true.mp hall _ hmem
  have hstatus : (run (step trusting) (filing.build () lastAttempt)
      (interrupted.filterMap Sum.getLeft?)).toOption.map (fun plain =>
        plain.map fun turn => turn.output.map (·.status)) =
      some [some ⟨0x90, 0x00⟩, some ⟨0x90, 0x00⟩, some ⟨0x90, 0x00⟩, some ⟨0x90, 0x00⟩,
        some ⟨0x90, 0x00⟩] := by decide +kernel
  obtain ⟨turns, plain, hturns, hplain, hsame, _⟩ :=
    undisturbed_of_run filing (by decide) hown () lastAttempt hunrelated
  have hsecond : run (step trusting) (filing.build () lastAttempt)
      (interrupted.filterMap Sum.getLeft?) = .ok plain := hplain
  rw [hsecond] at hstatus
  exact ⟨by decide, hown, hunrelated, turns, plain, hturns, hplain, hsame,
    by simpa [Except.toOption] using hstatus⟩

end Emulation

end SmartCard.Pace
