import SmartCard.Proofs.Pace.Numbering

/-!
# Renewal

A reset ends a session: whatever commands there were before it, it leaves a card as if it were built
anew, with the mechanism as that leaves itself. Beside this only the card state goes on, in which
commands write the remaining attempts of passwords and nothing else.
-/

namespace SmartCard

/-- What reading passwords and trust points and writing counters makes of a card state. -/
inductive Storage.Touches {W : Type} (storage : Storage W) : W → W → Prop
  | refl (world : W) : Touches storage world world
  | password {world world' : W} (password : PasswordRef) (h : Touches storage world world') :
      Touches storage world (storage.password password world').2
  | trustPoint {world world' : W} (terminal : TerminalType) (h : Touches storage world world') :
      Touches storage world (storage.trustPoint terminal world').2
  | counter {world world' : W} (password : PasswordRef) (counter : UInt8)
      (h : Touches storage world world') :
      Touches storage world (storage.setRetryCounter password counter world').2

namespace CardMemory

/-- A card state with all remaining attempts set to zero. -/
def uncounted (memory : CardMemory) : CardMemory :=
  { memory with
    passwords := fun password => (memory.passwords password).map fun state =>
      { state with retryCounter := state.retryCounter.map fun _ => 0 } }

theorem uncounted_of_setRetryCounter {memory memory' : CardMemory} {password : PasswordRef}
    {counter : UInt8} (h : memory.setRetryCounter password counter = .ok memory') :
    memory'.uncounted = memory.uncounted := by
  unfold setRetryCounter at h
  cases hstored : memory.passwords password with
  | none =>
    rw [hstored] at h
    cases h
  | some state =>
    rw [hstored] at h
    dsimp only at h
    split at h
    · cases h
      rfl
    · next hcounted =>
      cases h
      obtain ⟨old, hold⟩ :=
        Option.ne_none_iff_exists'.mp (mt Option.isNone_iff_eq_none.mpr hcounted)
      have hpasswords : (memory.withPassword password
          { state with retryCounter := some counter }).uncounted.passwords =
          memory.uncounted.passwords := by
        funext other
        by_cases hother : other = password
        · subst hother
          simp [uncounted, withPassword, hstored, hold]
        · simp [uncounted, withPassword, hother]
      simp only [uncounted, withPassword] at hpasswords ⊢
      rw [hpasswords]

end CardMemory

/-- In memory nothing changes but the remaining attempts. -/
theorem Storage.Touches.uncounted {memory memory' : CardMemory}
    (h : Storage.memory.Touches memory memory') : memory'.uncounted = memory.uncounted := by
  induction h with
  | refl => rfl
  | password _ _ ih | trustPoint _ _ ih => exact ih
  | @counter between password counter _ ih =>
    rw [← ih]
    cases hwrite : between.setRetryCounter password counter with
    | error fault => simp only [Storage.memory, hwrite]
    | ok memory =>
      simp only [Storage.memory, hwrite]
      exact CardMemory.uncounted_of_setRetryCounter hwrite

namespace Pace

variable {μ W : Type}

/-- What a card with PACE is built from, apart from the ephemeral data of its mechanism. -/
structure Setup (μ W : Type) where
  mechanism : Mechanism μ
  storage : Storage W
  paceOptions : Options
  /-- Shapes that are registered beside those of the protocol. -/
  shapes : List Shape
  maxTransitions : Nat
  options : Card.Options

namespace Setup

/-- A card that has not seen any command. -/
def build (setup : Setup μ W) (data : μ) (world : W) : Emulation μ W :=
  ⟨(Card.new setup.storage setup.options).withHandler (protocol setup.mechanism).handler
    (setup.shapes.foldl Engine.register
      (.start (protocol setup.mechanism : Protocol State Mode (Pace μ W) W)
        (.new data setup.paceOptions) setup.maxTransitions)), world⟩

/-- All shapes of a card. -/
def registry (setup : Setup μ W) : Registry :=
  setup.shapes.foldl .register (.ofList Pace.shapes)

/-- The engine of a card that has not seen any command. -/
def engine (setup : Setup μ W) (data : μ) : Driver μ W :=
  ⟨⟨data, setup.paceOptions, some setup.storage, none, none, false⟩, .idle, [], setup.registry,
    setup.maxTransitions⟩

theorem foldl_register (shapes : List Shape) (engine : Driver μ W) :
    shapes.foldl Engine.register engine =
      { engine with registry := shapes.foldl .register engine.registry } := by
  induction shapes generalizing engine with
  | nil => rfl
  | cons shape rest ih => rw [List.foldl_cons, ih, List.foldl_cons, Engine.register]

theorem build_eq (setup : Setup μ W) (data : μ) (world : W) :
    setup.build data world =
      ⟨⟨setup.storage, [setup.engine data], setup.options, 0⟩, world⟩ := by
  rw [build, foldl_register]
  rfl

end Setup

/-! ### The card state -/

section

variable {storage : Storage W} {mechanism : Mechanism μ} {pace : Pace μ W} {start world world' : W}
  {step : Step}

theorem touches_of_reads (htouches : storage.Touches start world)
    (hreads : Reads (some storage) world world') : storage.Touches start world' := by
  induction hreads with
  | refl => exact htouches
  | password hstorage password _ ih =>
    cases hstorage
    exact .password password (ih htouches)
  | trustPoint hstorage terminal _ ih =>
    cases hstorage
    exact .trustPoint terminal (ih htouches)

theorem touches_of_readPassword (hstorage : pace.storage = some storage)
    (htouches : storage.Touches start world) {password : PasswordRef}
    {result : Except Fault PasswordState}
    (h : pace.readPassword password world = (result, world')) : storage.Touches start world' := by
  have hreads := reads_of_readPassword (.refl world) h
  rw [hstorage] at hreads
  exact touches_of_reads htouches hreads

theorem touches_of_writeCounter (hstorage : pace.storage = some storage)
    (htouches : storage.Touches start world) {password : PasswordRef} {counter : UInt8}
    {result : Except Fault Unit} (h : pace.writeCounter password counter world = (result, world')) :
    storage.Touches start world' := by
  have hwrite : storage.setRetryCounter password counter world = (result, world') := by
    rwa [writeCounter, hstorage] at h
  have hstep := htouches.counter password counter
  rwa [hwrite] at hstep

theorem touches_of_spendAttempt (hstorage : pace.storage = some storage)
    (htouches : storage.Touches start world) {password : PasswordRef} {stored : PasswordState}
    {result : Except Fault Unit} (h : pace.spendAttempt password stored world = (result, world')) :
    storage.Touches start world' := by
  unfold spendAttempt at h
  split at h
  · cases h
    exact htouches
  · exact touches_of_writeCounter hstorage htouches h

theorem touches_of_restoreCounter (hstorage : pace.storage = some storage)
    (htouches : storage.Touches start world) {password : PasswordRef} {stored : PasswordState}
    {result : Except Fault Unit}
    (h : pace.restoreCounter password stored world = (result, world')) :
    storage.Touches start world' := by
  unfold restoreCounter at h
  split at h
  · split at h
    · cases h
      exact htouches
    · exact touches_of_writeCounter hstorage htouches h
  · cases h
    exact htouches

theorem touches_of_acts (hstorage : pace.storage = some storage)
    (htouches : storage.Touches start world) {state : State} {outcome : Outcome μ W}
    (hacts : Acts mechanism pace world step state outcome) :
    storage.Touches start outcome.world := by
  cases hacts with
  | announced h =>
    rw [announce, h]
    exact htouches
  | unannounced h =>
    rw [announce, h]
    exact htouches
  | outOfSequence | unmatched => exact htouches
  | refused _ _ _ hreads | halted _ _ _ hreads | withheld _ _ _ hreads =>
    rw [hstorage] at hreads
    exact touches_of_reads htouches hreads
  | selected _ _ _ hpassword htrust =>
    have hreads := reads_of_checkTrust (reads_of_readPassword (.refl world) hpassword) htrust
    rw [hstorage] at hreads
    exact touches_of_reads htouches hreads
  | sentNonce _ _ _ hpassword =>
    rw [world_answerStep]
    exact touches_of_readPassword hstorage htouches hpassword
  | mappedNonce | agreedOnKey =>
    rw [world_answerStep]
    exact htouches
  | verified hverifies =>
    cases hverifies with
    | unverified hpresents => exact touches_of_readPassword hstorage htouches hpresents.read
    | rejected hpresents _ hspent | unspent hpresents _ hspent =>
      have hread := touches_of_readPassword hstorage htouches hpresents.read
      exact touches_of_spendAttempt hstorage hread hspent
    | accepted hpresents _ hrestored | unrestored hpresents _ hrestored =>
      have hread := touches_of_readPassword hstorage htouches hpresents.read
      exact touches_of_restoreCounter hstorage hread hrestored

theorem touches_of_answers {engine engine' : Driver μ W} {context context' : Context}
    (hstorage : engine.data.storage = some storage) (htouches : storage.Touches start world)
    (hanswers : Answers mechanism engine world context engine' world' context') :
    storage.Touches start world' := by
  cases hanswers with
  | untouched => exact htouches
  | settled _ hacts => exact touches_of_acts hstorage htouches hacts
  | unannounced _ _ hgrants | announced _ _ hgrants =>
    have hread := touches_of_readPassword hstorage htouches hgrants.presents.read
    exact touches_of_restoreCounter hstorage hread hgrants.restored

end

/-! ### What a session leaves alone -/

/-- An engine with all that it was built from. -/
structure Follows (setup : Setup μ W) (engine : Driver μ W) : Prop where
  options : engine.data.options = setup.paceOptions
  storage : engine.data.storage = some setup.storage
  history : engine.history = []
  registry : engine.registry = setup.registry
  limit : engine.maxTransitions = setup.maxTransitions

section

variable {setup : Setup μ W} {engine engine' : Driver μ W} {world world' : W}

theorem follows_engine (setup : Setup μ W) (data : μ) : Follows setup (setup.engine data) :=
  ⟨rfl, rfl, rfl, rfl, rfl⟩

theorem follows_of_answers {context context' : Context} (hfollows : Follows setup engine)
    (hanswers : Answers setup.mechanism engine world context engine' world' context') :
    Follows setup engine' := by
  obtain ⟨hoptions, hstorage, hhistory, hregistry, hlimit⟩ := hfollows
  cases hanswers with
  | settled _ hacts =>
    obtain ⟨hsameOptions, hsameStorage⟩ := frame_of_acts hacts
    exact ⟨hsameOptions.trans hoptions, hsameStorage.trans hstorage, hhistory, hregistry, hlimit⟩
  | _ => exact ⟨hoptions, hstorage, hhistory, hregistry, hlimit⟩

/-- A reset leaves of an engine what it was built from, and the mechanism. -/
theorem Follows.reset_eq (hfollows : Follows setup engine) :
    { engine with data := engine.data.endSession setup.mechanism, state := .idle } =
      setup.engine (setup.mechanism.reset engine.data.mechanism) := by
  obtain ⟨⟨mechanism, options, storage, selection, established, can⟩, state, history, registry,
    limit⟩ := engine
  obtain ⟨rfl, rfl, rfl, rfl, rfl⟩ := hfollows
  rfl

end

namespace Emulation

/-- A card that was built from a setup over `start`, in the course of its life. -/
structure Lives (setup : Setup μ W) (start : W) (engine : Driver μ W) (emulation : Emulation μ W) :
    Prop where
  storage : emulation.card.storage = setup.storage
  handlers : emulation.card.handlers = [engine]
  options : emulation.card.options = setup.options
  engine : Follows setup engine
  world : setup.storage.Touches start emulation.world

theorem lives_of_step {setup : Setup μ W} {start : W} {engine : Driver μ W}
    {emulation : Emulation μ W} (hlives : emulation.Lives setup start engine) (input : Input) :
    ∃ output next engine', emulation.step setup.mechanism input = .ok (output, next) ∧
      next.Lives setup start engine' := by
  obtain ⟨hstorage, hhandlers, hoptions, hfollows, htouches⟩ := hlives
  obtain ⟨output, next, engine', hstep, hhandlers', hsteps⟩ :=
    steps_step setup.mechanism hhandlers input
  obtain ⟨hsameStorage, hsameOptions⟩ := frame_of_step hstep
  refine ⟨output, next, engine', hstep, hsameStorage.trans hstorage, hhandlers',
    hsameOptions.trans hoptions, ?_, ?_⟩
  · generalize next.world = world' at hsteps
    cases hsteps with
    | malformed => exact hfollows
    | command hanswers => exact follows_of_answers hfollows hanswers
    | reset =>
      obtain ⟨hoptions, hstorage, hhistory, hregistry, hlimit⟩ := hfollows
      exact ⟨hoptions, hstorage, hhistory, hregistry, hlimit⟩
    | resetHistory =>
      obtain ⟨hoptions, hstorage, _, hregistry, hlimit⟩ := hfollows
      exact ⟨hoptions, hstorage, rfl, hregistry, hlimit⟩
  · generalize next.world = world' at hsteps
    cases hsteps with
    | malformed | reset | resetHistory => exact htouches
    | command hanswers => exact touches_of_answers hfollows.storage htouches hanswers

/-- What a reset makes of a card: one that is built anew over the card state as it is, with what the
mechanism leaves of itself. It answers as such a card, which has not numbered any commands yet. -/
structure Renews (setup : Setup μ W) (start : W) (emulation : Emulation μ W) (current : μ) :
    Prop where
  mechanism : emulation.card.handlers.map (·.data.mechanism) = [current]
  reset : emulation.step setup.mechanism .reset = .ok (none,
    (setup.build (setup.mechanism.reset current) emulation.world).renumber emulation.card.received)
  later : ∀ inputs, ∃ turns,
    run (step setup.mechanism) (setup.build (setup.mechanism.reset current) emulation.world)
        inputs = .ok turns ∧
      run (step setup.mechanism)
          ((setup.build (setup.mechanism.reset current) emulation.world).renumber
            emulation.card.received) inputs =
        .ok (turns.map (Turn.map (renumber emulation.card.received)))
  world : setup.storage.Touches start emulation.world

section

variable {setup : Setup μ W} {start : W}

theorem lives_build (setup : Setup μ W) (data : μ) (start : W) :
    (setup.build data start).Lives setup start (setup.engine data) := by
  rw [Setup.build_eq]
  exact ⟨rfl, rfl, rfl, follows_engine setup data, .refl start⟩

/-- What holds of a card that was built holds at every moment of its life. -/
theorem exists_lives (setup : Setup μ W) (data : μ) (start : W) (inputs : List Input) :
    ∃ turns, run (step setup.mechanism) (setup.build data start) inputs = .ok turns ∧
      ∀ past future, turns = past ++ future →
        ∃ engine, (stateAfter (setup.build data start) past).Lives setup start engine := by
  let Living : Emulation μ W → Prop := fun emulation =>
    ∃ engine, emulation.Lives setup start engine
  have hstart : Living (setup.build data start) := ⟨_, lives_build setup data start⟩
  have hstep : ∀ emulation input, Living emulation → ∃ output next,
      step setup.mechanism emulation input = .ok (output, next) ∧ Living next := by
    rintro emulation input ⟨engine, hlives⟩
    obtain ⟨output, next, engine', hstep, hnext⟩ := lives_of_step hlives input
    exact ⟨output, next, hstep, engine', hnext⟩
  obtain ⟨turns, hrun, _, hmoments⟩ := exists_run hstart hstep inputs
  exact ⟨turns, hrun, hmoments⟩

theorem Lives.reset_eq {engine : Driver μ W} {emulation : Emulation μ W}
    (hlives : emulation.Lives setup start engine) :
    emulation.step setup.mechanism .reset = .ok (none,
      (setup.build (setup.mechanism.reset engine.data.mechanism) emulation.world).renumber
        emulation.card.received) := by
  have hengine : engine.reset (protocol setup.mechanism) emulation.world =
      (setup.engine (setup.mechanism.reset engine.data.mechanism), emulation.world) := by
    rw [← hlives.engine.reset_eq]
    rfl
  have hreset : Card.resetAll (protocol setup.mechanism).handler [engine] emulation.world =
      ([setup.engine (setup.mechanism.reset engine.data.mechanism)], emulation.world) := by
    have hhandler : (protocol setup.mechanism).handler.reset engine emulation.world =
        engine.reset (protocol setup.mechanism) emulation.world := rfl
    rw [Card.resetAll, hhandler, hengine]
    rfl
  rw [step, Card.reset, hlives.handlers, hreset, hlives.storage, hlives.options, Setup.build_eq]
  rfl

theorem run_renumber (setup : Setup μ W) (data : μ) (start : W) (further : Nat)
    (inputs : List Input) :
    run (step setup.mechanism) ((setup.build data start).renumber further) inputs =
      (run (step setup.mechanism) (setup.build data start) inputs).map
        (List.map (Turn.map (renumber further))) := by
  let Single : Emulation μ W → Prop := fun emulation => ∃ engine, emulation.card.handlers = [engine]
  have hstart : Single (setup.build data start) := by
    rw [Setup.build_eq]
    exact ⟨_, rfl⟩
  refine run_map (P := Single) ?_ ?_ inputs hstart
  · rintro emulation input ⟨engine, hhandlers⟩
    exact step_renumber further hhandlers input
  · rintro emulation input output next ⟨engine, hhandlers⟩ hstep
    obtain ⟨_, _, engine', hsame, hhandlers', _⟩ := steps_step setup.mechanism hhandlers input
    rw [hstep] at hsame
    cases hsame
    exact ⟨engine', hhandlers'⟩

theorem Lives.renews {engine : Driver μ W} {emulation : Emulation μ W}
    (hlives : emulation.Lives setup start engine) :
    emulation.Renews setup start engine.data.mechanism where
  mechanism := by
    rw [hlives.handlers]
    rfl
  reset := hlives.reset_eq
  later := by
    intro inputs
    obtain ⟨turns, hrun, _⟩ := exists_lives setup
      (setup.mechanism.reset engine.data.mechanism) emulation.world inputs
    refine ⟨turns, hrun, ?_⟩
    rw [run_renumber, hrun]
    rfl
  world := hlives.world

end

/-- Whatever happened to a card, a reset leaves one that is built anew, over a card state that the
commands have read and written counters in. In memory nothing else can have changed. -/
theorem renews_of_run (setup : Setup μ W) (data : μ) (start : W) (inputs : List Input) :
    (∃ turns, run (step setup.mechanism) (setup.build data start) inputs = .ok turns ∧
      ∀ past future, turns = past ++ future →
        ∃ current, (stateAfter (setup.build data start) past).Renews setup start current) ∧
    ∀ memory memory', Storage.memory.Touches memory memory' →
      memory'.uncounted = memory.uncounted := by
  refine ⟨?_, fun memory memory' htouches => htouches.uncounted⟩
  obtain ⟨turns, hrun, hlives⟩ := exists_lives setup data start inputs
  refine ⟨turns, hrun, ?_⟩
  intro past future hsplit
  obtain ⟨engine, hlives⟩ := hlives past future hsplit
  exact ⟨engine.data.mechanism, hlives.renews⟩

end Emulation

end Pace

end SmartCard
