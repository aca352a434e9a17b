import SmartCard.Proofs.Pace.Secret
import SmartCard.Proofs.Pace.Selecting

/-!
# Noninterference

Two cards that differ in the secret of one password take the same course as long as no nonce is
encrypted under that password. With a mechanism that does not look at passwords when it encrypts
nonces, they always do.
-/

namespace SmartCard.Pace.Emulation

variable {μ : Type}

/-- The same card with another secret for a password. -/
def withSecret (changed : PasswordRef) (secret : Bytes) (emulation : Emulation μ CardMemory) :
    Emulation μ CardMemory :=
  { emulation with world := emulation.world.withSecret changed secret }

/-- The same card with a record of calls beside its mechanism, which is still empty. -/
def recording (emulation : Emulation μ CardMemory) : Emulation (μ × List Call) CardMemory :=
  emulation.erase (·, []) id Storage.memory

section

variable (mechanism : Mechanism μ) (emulation : Emulation μ CardMemory)

/-- The calls of the mechanism that an input brings about. -/
def callsFor (input : Input) : List Call :=
  match emulation.recording.step mechanism.recorded input with
  | .error _ => []
  | .ok (_, next) => next.calls

/-- Whether an input makes a nonce be encrypted while a password is the one that is selected. -/
def encrypts (password : PasswordRef) (input : Input) : Bool :=
  emulation.selected? = some password &&
    (emulation.callsFor mechanism input).any (·.stage? = some .encryptedNonce)

/-- The context of a command after it was processed. -/
def context? : Input → Option Context
  | .reset | .resetHistory => none
  | .handle bytes =>
    match Command.decode bytes with
    | .error _ => none
    | .ok command =>
      let handle := Handle.root (.received emulation.card.received) command
      (emulation.card.process (protocol mechanism).handler emulation.world handle).toOption.map
        (·.2.2)

end

section

variable {mechanism : Mechanism μ} {emulation : Emulation μ CardMemory}
  {engine : Driver μ CardMemory} {changed : PasswordRef}

/-! ### Calls that are made -/

/-- The record shows the calls of the card itself. -/
theorem step_recording (hmemory : emulation.card.storage = Storage.memory)
    (hengines : ∀ engine ∈ emulation.card.handlers, engine.data.storage = some Storage.memory)
    (input : Input) :
    emulation.step mechanism input =
      (emulation.recording.step mechanism.recorded input).map fun (output, next) =>
        (output, next.erase Prod.fst id Storage.memory) := by
  have hback : ∀ engine ∈ emulation.card.handlers,
      eraseEngine Prod.fst Storage.memory
        (eraseEngine (·, ([] : List Call)) Storage.memory engine) = engine := by
    intro engine hmem
    have hstorage := hengines engine hmem
    obtain ⟨⟨_, _, _, _, _, _⟩, _, _, _, _⟩ := engine
    cases hstorage
    rfl
  have hemulation : emulation.recording.erase Prod.fst id Storage.memory = emulation := by
    obtain ⟨⟨storage, handlers, options, received⟩, world⟩ := emulation
    have hsame : Storage.memory = storage := hmemory.symm
    simp only [recording, erase, List.map_map, id_eq]
    have hcard : handlers.map (eraseEngine Prod.fst Storage.memory ∘
        eraseEngine (·, ([] : List Call)) Storage.memory) = handlers.map id :=
      List.map_congr_left hback
    rw [hcard, List.map_id, hsame]
  have hrecording : ∀ engine ∈ emulation.recording.card.handlers,
      engine.data.storage = some Storage.memory := by
    intro engine hmem
    obtain ⟨_, _, rfl⟩ := List.mem_map.mp hmem
    rfl
  have herase := step_erase mechanism.erases_recorded Storage.memory.erases_refl hrecording input
  rwa [hemulation] at herase

theorem calls_of_encrypts (mechanism : Mechanism μ) {pace : Pace (μ × List Call) CardMemory}
    {memory : CardMemory} {step : SmartCard.Step} {state : State}
    (hstorage : pace.storage = some Storage.memory)
    (hencrypts : Encrypts changed pace memory step state) :
    (pace.act mechanism.recorded memory step state).stops = true ∧
      ∃ call, call.stage? = some .encryptedNonce ∧
        (pace.act mechanism.recorded memory step state).pace.calls = pace.calls ++ [call] := by
  obtain ⟨rfl, hshape, hdue, hselected, hstored⟩ := hencrypts
  obtain ⟨selection, hselection, rfl⟩ := Option.map_eq_some_iff.mp hselected
  obtain ⟨stored, hstored⟩ := Option.isSome_iff_exists.mp hstored
  have hread : pace.readPassword selection.password memory = (.ok stored, memory) := by
    unfold readPassword
    rw [hstorage]
    simp only [Storage.memory, hstored]
  have hact : pace.act mechanism.recorded memory step (.authenticating .setAtProcessed) =
      pace.answerStep memory "encrypted nonce" encryptedNonceTag .nonceSent
        (mechanism.recorded.encryptedNonce selection.algorithm pace.options.domainParameters
          stored.secret pace.mechanism) := by
    rw [act, if_neg (by simp [hshape]), authenticate]
    simp only [hdue, if_true, sendNonce, hselection, hread]
  rw [hact, stops_answerStep, pace_answerStep]
  exact ⟨rfl, _, rfl, rfl⟩

/-- A command that makes a nonce be encrypted makes the mechanism be called for it. -/
theorem encrypts_of_process (hhandlers : emulation.card.handlers = [engine])
    {bytes : Bytes} {command : Command} (hdecode : Command.decode bytes = .ok command)
    (hlimit : 0 < engine.maxTransitions)
    (hencrypts : Encrypts changed engine.data emulation.world ⟨name, engine.registry,
      .start (.root (.received emulation.card.received) command)⟩ engine.state) :
    emulation.encrypts mechanism changed (.handle bytes) = true := by
  let recorder : Driver (μ × List Call) CardMemory := eraseEngine (·, []) Storage.memory engine
  let context := Context.start (.root (.received emulation.card.received) command)
  have hrecorder : emulation.recording.card.handlers = [recorder] := by
    rw [recording, erase, hhandlers]
    rfl
  have hrecords : Encrypts changed recorder.data emulation.world
      ⟨name, recorder.registry, context⟩ recorder.state :=
    ⟨hencrypts.state, hencrypts.shape, hencrypts.due, hencrypts.selected, hencrypts.stored⟩
  obtain ⟨hstops, call, hstage, hcalls⟩ := calls_of_encrypts mechanism rfl hrecords
  have hnone : recorder.data.calls = [] := rfl
  rw [hnone, List.nil_append] at hcalls
  have hprocess := process_of_stops mechanism.recorded recorder emulation.world context hlimit
    hstops
  have hcallsFor : emulation.callsFor mechanism (.handle bytes) = [call] := by
    rw [callsFor, step, Card.handle, hdecode]
    dsimp only
    rw [process_of_handlers mechanism.recorded hrecorder]
    have hreceived : emulation.recording.card.received = emulation.card.received := rfl
    have hworld : emulation.recording.world = emulation.world := rfl
    rw [hreceived, hworld, hprocess]
    simpa [Except.map, calls] using hcalls
  rw [encrypts, selected?_of_handlers hhandlers, hencrypts.selected, hcallsFor]
  simp [hstage]

/-! ### One input -/

theorem card_process_withSecret (secret : Bytes) (hhandlers : emulation.card.handlers = [engine])
    (hstorage : engine.data.storage = some Storage.memory) {bytes : Bytes} {command : Command}
    (hdecode : Command.decode bytes = .ok command)
    (hsecret : emulation.encrypts mechanism changed (.handle bytes) = true →
      mechanism.Indifferent) :
    emulation.card.process (protocol mechanism).handler
        (emulation.world.withSecret changed secret)
        (.root (.received emulation.card.received) command) =
      (emulation.card.process (protocol mechanism).handler emulation.world
        (.root (.received emulation.card.received) command)).map
          fun (card, memory, context) => (card, memory.withSecret changed secret, context) := by
  have hprocess := process_withSecret secret hstorage emulation.world
    (.start (.root (.received emulation.card.received) command)) fun hlimit hencrypts =>
      hsecret (encrypts_of_process hhandlers hdecode hlimit hencrypts)
  rw [process_of_handlers mechanism hhandlers, process_of_handlers mechanism hhandlers, hprocess]
  cases engine.process (protocol mechanism) emulation.world
    (.start (.root (.received emulation.card.received) command)) <;> rfl

theorem context?_withSecret (secret : Bytes) (hattached : Attached Storage.memory emulation)
    (input : Input)
    (hsecret : emulation.encrypts mechanism changed input = true → mechanism.Indifferent) :
    (emulation.withSecret changed secret).context? mechanism input =
      emulation.context? mechanism input := by
  obtain ⟨engine, hhandlers, hstorage⟩ := hattached
  cases input with
  | reset | resetHistory => rfl
  | handle bytes =>
    cases hdecode : Command.decode bytes with
    | error error => simp only [context?, hdecode]
    | ok command =>
      have hprocess := card_process_withSecret secret hhandlers hstorage hdecode hsecret
      simp only [context?, hdecode, withSecret, hprocess]
      cases emulation.card.process (protocol mechanism).handler emulation.world
        (.root (.received emulation.card.received) command) <;> rfl

theorem step_withSecret (secret : Bytes) (hattached : Attached Storage.memory emulation)
    (input : Input)
    (hsecret : emulation.encrypts mechanism changed input = true → mechanism.Indifferent) :
    (emulation.withSecret changed secret).step mechanism input =
      (emulation.step mechanism input).map fun (output, next) =>
        (output, next.withSecret changed secret) := by
  obtain ⟨engine, hhandlers, hstorage⟩ := hattached
  cases input with
  | resetHistory => rfl
  | reset =>
    rw [step, step, Card.reset, Card.reset]
    dsimp only [withSecret]
    rw [hhandlers]
    rfl
  | handle bytes =>
    rw [step, step, Card.handle, Card.handle]
    cases hdecode : Command.decode bytes with
    | error error => rfl
    | ok command =>
      have hprocess := card_process_withSecret secret hhandlers hstorage hdecode hsecret
      dsimp only [withSecret]
      rw [hprocess]
      cases emulation.card.process (protocol mechanism).handler emulation.world
        (.root (.received emulation.card.received) command) <;> rfl

/-! ### Runs -/

/-- A card with another secret for a password answers alike, in the same contexts, and comes to the
same states up to that secret, unless a nonce is encrypted under it. -/
theorem noninterference_of_run (mechanism : Mechanism μ) (changed : PasswordRef) (secret : Bytes)
    {emulation : Emulation μ CardMemory} (hattached : Attached Storage.memory emulation)
    (inputs : List Input) :
    ∃ turns, run (step mechanism) emulation inputs = .ok turns ∧
      ((∀ turn ∈ turns, turn.before.encrypts mechanism changed turn.input = false) ∨
          mechanism.Indifferent →
        run (step mechanism) (emulation.withSecret changed secret) inputs =
            .ok (turns.map (Turn.map (withSecret changed secret))) ∧
          ∀ turn ∈ turns, (turn.before.withSecret changed secret).context? mechanism turn.input =
            turn.before.context? mechanism turn.input) := by
  have hstep : ∀ state input, Attached Storage.memory state → ∃ output next,
      step mechanism state input = .ok (output, next) ∧ Attached Storage.memory next := by
    rintro state input ⟨engine, hhandlers, hstorage⟩
    obtain ⟨output, next, _, hnext, _⟩ := steps_step mechanism hhandlers input
    exact ⟨output, next, hnext, attached_of_step ⟨engine, hhandlers, hstorage⟩ hnext⟩
  obtain ⟨turns, hrun, hturns, _⟩ := exists_run hattached hstep inputs
  refine ⟨turns, hrun, ?_⟩
  intro hspared
  have hsecret : ∀ turn ∈ turns, turn.before.encrypts mechanism changed turn.input = true →
      mechanism.Indifferent := by
    intro turn hmem hencrypts
    rcases hspared with hnever | hindifferent
    · rw [hnever turn hmem] at hencrypts
      cases hencrypts
    · exact hindifferent
  constructor
  · refine run_map_of_turns (fun _ _ _ _ h hnext => attached_of_step h hnext) hattached hrun ?_
    intro turn hmem hbefore
    exact step_withSecret secret hbefore turn.input (hsecret turn hmem)
  · intro turn hmem
    exact context?_withSecret secret (hturns turn hmem) turn.input (hsecret turn hmem)

end

/-- A card whose identification number has one attempt left. -/
def cautious : Emulation Unit CardMemory :=
  start trusting .memory () .standard {} lastAttempt

/-- The identification number is selected before and after an authentication with the access
number. -/
def probing : List Input :=
  [selecting .pin, selecting .can, stepping 0x10 [], stepping 0x10 [0x81, 0x01, 0xAA],
    stepping 0x10 [0x83, 0x01, 0xBB], stepping 0x00 [0x85, 0x01, 0xCC], selecting .pin].map
      fun handle => .handle handle.command.encode

theorem noninterference_of_run_probing :
    Attached Storage.memory cautious ∧ ∃ turns, run (step trusting) cautious probing = .ok turns ∧
      turns.map (fun turn => turn.before.encrypts trusting .can turn.input) =
        [false, false, true, false, false, false, false] ∧
      turns.map (fun turn => turn.output.map (·.status)) = [some ⟨0x63, 0xC1⟩, some ⟨0x90, 0x00⟩,
        some ⟨0x90, 0x00⟩, some ⟨0x90, 0x00⟩, some ⟨0x90, 0x00⟩, some ⟨0x90, 0x00⟩,
        some ⟨0x90, 0x00⟩] ∧
      run (step trusting) (cautious.withSecret .pin [0x39]) probing =
        .ok (turns.map (Turn.map (withSecret .pin [0x39]))) := by
  have hattached : Attached Storage.memory cautious := ⟨_, rfl, rfl⟩
  have hseen : (run (step trusting) cautious probing).toOption.map (fun turns =>
      (turns.map (fun turn => turn.before.encrypts trusting .can turn.input),
        turns.map (fun turn => turn.output.map (·.status)),
        turns.all fun turn => turn.before.encrypts trusting .pin turn.input = false)) =
      some ([false, false, true, false, false, false, false], [some ⟨0x63, 0xC1⟩,
        some ⟨0x90, 0x00⟩, some ⟨0x90, 0x00⟩, some ⟨0x90, 0x00⟩, some ⟨0x90, 0x00⟩,
        some ⟨0x90, 0x00⟩, some ⟨0x90, 0x00⟩], true) := by
    decide +kernel
  obtain ⟨turns, hrun, hspared⟩ :=
    noninterference_of_run trusting .pin [0x39] hattached probing
  rw [hrun] at hseen
  obtain ⟨hcan, hstatus, hpin⟩ : _ ∧ _ ∧ _ := by simpa [Except.toOption] using hseen
  exact ⟨hattached, turns, hrun, hcan, hstatus, (hspared (.inl hpin)).1⟩

end SmartCard.Pace.Emulation
