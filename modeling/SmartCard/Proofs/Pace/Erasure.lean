import SmartCard.Proofs.Pace.Emulation
import SmartCard.Proofs.Protocol.Mapping

/-!
# Erasure

A mechanism and an access to the card state that hold more than others, but answer as these do, make
no difference to what PACE does. Keeping records is a case of this: forgetting the records of a
recorded run leaves the run without records.
-/

namespace SmartCard

variable {μ ν V W : Type}

/-- `plain` answers as `rich` does, on what `forget` leaves of its ephemeral data. -/
structure Pace.Mechanism.Erases (forget : ν → μ) (rich : Mechanism ν) (plain : Mechanism μ) :
    Prop where
  encryptedNonce : ∀ algorithm domainParameters password data,
    plain.encryptedNonce algorithm domainParameters password (forget data) =
      (rich.encryptedNonce algorithm domainParameters password data).map id forget
  mapNonce : ∀ mapping data,
    plain.mapNonce mapping (forget data) = (rich.mapNonce mapping data).map id forget
  keyAgreement : ∀ key data,
    plain.keyAgreement key (forget data) = (rich.keyAgreement key data).map id forget
  mutualAuthenticate : ∀ token data,
    plain.mutualAuthenticate token (forget data) =
      (rich.mutualAuthenticate token data).map id forget
  reset : ∀ data, plain.reset (forget data) = forget (rich.reset data)

/-- `plain` answers as `rich` does, on what `forget` leaves of the card state. -/
structure Storage.Erases (forget : V → W) (rich : Storage V) (plain : Storage W) : Prop where
  password : ∀ password world,
    plain.password password (forget world) = (rich.password password world).map id forget
  setRetryCounter : ∀ password counter world,
    plain.setRetryCounter password counter (forget world) =
      (rich.setRetryCounter password counter world).map id forget
  trustPoint : ∀ terminal world,
    plain.trustPoint terminal (forget world) = (rich.trustPoint terminal world).map id forget

theorem Pace.Mechanism.erases_recorded (mechanism : Mechanism μ) :
    Erases Prod.fst mechanism.recorded mechanism :=
  ⟨fun _ _ _ _ => rfl, fun _ _ => rfl, fun _ _ => rfl, fun _ _ => rfl, fun _ => rfl⟩

theorem Storage.erases_recorded (storage : Storage W) : Erases Prod.fst storage.recorded storage :=
  ⟨fun _ _ => rfl, fun _ _ _ => rfl, fun _ _ => rfl⟩

theorem Storage.erases_refl (storage : Storage W) : Erases id storage storage :=
  ⟨fun _ _ => rfl, fun _ _ _ => rfl, fun _ _ => rfl⟩

namespace Pace

/-- What is left of the protocol. -/
def erase (forget : ν → μ) (plain : Storage W) (pace : Pace ν V) : Pace μ W :=
  ⟨forget pace.mechanism, pace.options, some plain, pace.selection, pace.established,
    pace.canAuthenticated⟩

/-- What is left of the outcome of a transition. -/
def Outcome.erase (forget : ν → μ) (view : V → W) (plain : Storage W) (outcome : Outcome ν V) :
    Outcome μ W :=
  ⟨outcome.next, outcome.pace.erase forget plain, view outcome.world, outcome.notes, outcome.stop⟩

section

variable {forget : ν → μ} {view : V → W} {rich : Mechanism ν} {plain : Mechanism μ}
  {access : Storage V} {storage : Storage W} {pace : Pace ν V} {world : V} {step : Step}

/-! ### The card state -/

theorem readPassword_erase (hview : Storage.Erases view access storage)
    (hstorage : pace.storage = some access) (password : PasswordRef) (world : V) :
    (pace.erase forget storage).readPassword password (view world) =
      (pace.readPassword password world).map id view := by
  unfold readPassword
  rw [hstorage]
  simp only [erase, hview.password]
  rcases access.password password world with ⟨_ | stored, next⟩ <;> rfl

theorem writeCounter_erase (hview : Storage.Erases view access storage)
    (hstorage : pace.storage = some access) (password : PasswordRef) (counter : UInt8) (world : V) :
    (pace.erase forget storage).writeCounter password counter (view world) =
      (pace.writeCounter password counter world).map id view := by
  unfold writeCounter
  rw [hstorage]
  exact hview.setRetryCounter password counter world

theorem checkTrust_erase (hview : Storage.Erases view access storage)
    (hstorage : pace.storage = some access) (chat : Option Chat) (world : V) :
    (pace.erase forget storage).checkTrust chat (view world) =
      (pace.checkTrust chat world).map id view := by
  unfold checkTrust
  cases chat with
  | none => rfl
  | some chat =>
    rw [hstorage]
    simp only [erase, hview.trustPoint]
    rcases access.trustPoint chat.terminal world with ⟨_ | trustPoint, next⟩ <;> rfl

theorem restoreCounter_erase (hview : Storage.Erases view access storage)
    (hstorage : pace.storage = some access) (password : PasswordRef) (stored : PasswordState)
    (world : V) :
    (pace.erase forget storage).restoreCounter password stored (view world) =
      (pace.restoreCounter password stored world).map id view := by
  unfold restoreCounter
  split
  · split
    · rfl
    · exact writeCounter_erase hview hstorage password _ world
  · rfl

/-! ### Transitions -/

theorem select_erase (hforget : Mechanism.Erases forget rich plain)
    (hview : Storage.Erases view access storage) (hstorage : pace.storage = some access) :
    (pace.erase forget storage).select plain (view world) step =
      (pace.select rich world step).erase forget view storage := by
  have hrestart : (pace.erase forget storage).restart plain =
      (pace.restart rich).erase forget storage := by
    simp only [restart, erase, hforget.reset]
  have hkept : (pace.restart rich).storage = some access := hstorage
  unfold select
  rw [hrestart]
  dsimp only
  have hoptions : ((pace.restart rich).erase forget storage).options =
      (pace.restart rich).options := rfl
  rw [hoptions]
  cases readSelection (pace.restart rich).options step with
  | error fault => rfl
  | ok selection =>
    simp only [readPassword_erase hview hkept]
    rcases (pace.restart rich).readPassword selection.password world with ⟨fault | stored, next⟩
    · rfl
    · simp only [Prod.map_apply, id_eq, checkTrust_erase hview hkept]
      rcases (pace.restart rich).checkTrust selection.chat next with ⟨fault | _, last⟩ <;> rfl

theorem answerStep_erase (world : V) (message : String) (inner : Tag) (next : Progress)
    (result : Except Fault Bytes × ν) :
    (pace.erase forget storage).answerStep (view world) message inner next
        (result.map id forget) =
      (pace.answerStep world message inner next result).erase forget view storage := by
  obtain ⟨fault | data, mechanism⟩ := result <;> rfl

theorem sendNonce_erase (hforget : Mechanism.Erases forget rich plain)
    (hview : Storage.Erases view access storage) (hstorage : pace.storage = some access) :
    (pace.erase forget storage).sendNonce plain (view world) =
      (pace.sendNonce rich world).erase forget view storage := by
  have hselection : (pace.erase forget storage).selection = pace.selection := rfl
  unfold sendNonce
  rw [hselection]
  cases pace.selection with
  | none => rfl
  | some selection =>
    simp only [readPassword_erase hview hstorage]
    rcases pace.readPassword selection.password world with ⟨fault | stored, next⟩
    · rfl
    · have hmechanism : (pace.erase forget storage).mechanism = forget pace.mechanism := rfl
      simp only [Prod.map_apply, id_eq, hmechanism, hforget.encryptedNonce]
      exact answerStep_erase ..

theorem mapNonce_erase (hforget : Mechanism.Erases forget rich plain) :
    (pace.erase forget storage).mapNonce plain (view world) step =
      (pace.mapNonce rich world step).erase forget view storage := by
  have hmechanism : (pace.erase forget storage).mechanism = forget pace.mechanism := rfl
  unfold mapNonce
  cases authenticationData step terminalMappingTag with
  | error fault => rfl
  | ok data =>
    simp only [hmechanism, hforget.mapNonce]
    exact answerStep_erase ..

theorem agreeOnKey_erase (hforget : Mechanism.Erases forget rich plain) :
    (pace.erase forget storage).agreeOnKey plain (view world) step =
      (pace.agreeOnKey rich world step).erase forget view storage := by
  have hmechanism : (pace.erase forget storage).mechanism = forget pace.mechanism := rfl
  unfold agreeOnKey
  cases authenticationData step terminalKeyTag with
  | error fault => rfl
  | ok data =>
    simp only [hmechanism, hforget.keyAgreement]
    exact answerStep_erase ..

theorem reject_erase (hview : Storage.Erases view access storage)
    (hstorage : pace.storage = some access) (world : V) (password : PasswordRef)
    (stored : PasswordState) :
    (pace.erase forget storage).reject (view world) password stored =
      (pace.reject world password stored).erase forget view storage := by
  unfold reject
  cases stored.retryCounter with
  | none => rfl
  | some counter =>
    simp only [writeCounter_erase hview hstorage]
    rcases pace.writeCounter password (if counter = 0 then 0 else counter - 1) world with
      ⟨fault | _, next⟩ <;> rfl

theorem accept_erase (hview : Storage.Erases view access storage)
    (hstorage : pace.storage = some access) (world : V) (selection : Selection)
    (stored : PasswordState) (authentication : Authentication) :
    (pace.erase forget storage).accept (view world) selection stored authentication =
      (pace.accept world selection stored authentication).erase forget view storage := by
  unfold accept
  simp only [restoreCounter_erase hview hstorage]
  rcases pace.restoreCounter selection.password stored world with ⟨fault | _, next⟩ <;> rfl

theorem verify_erase (hforget : Mechanism.Erases forget rich plain)
    (hview : Storage.Erases view access storage) (hstorage : pace.storage = some access) (world : V)
    (token : Bytes) (selection : Selection) (stored : PasswordState) :
    verify plain (pace.erase forget storage) (view world) token selection stored =
      (verify rich pace world token selection stored).erase forget view storage := by
  have hmechanism : (pace.erase forget storage).mechanism = forget pace.mechanism := rfl
  unfold verify
  rw [hmechanism, hforget.mutualAuthenticate]
  rcases rich.mutualAuthenticate token pace.mechanism with ⟨fault | _ | authentication, data⟩
  all_goals
    have hkept : ({ pace with mechanism := data } : Pace ν V).storage = some access := hstorage
  · rfl
  · exact reject_erase hview hkept ..
  · exact accept_erase hview hkept ..

theorem mutualAuthenticate_erase (hforget : Mechanism.Erases forget rich plain)
    (hview : Storage.Erases view access storage) (hstorage : pace.storage = some access) :
    (pace.erase forget storage).mutualAuthenticate plain (view world) step =
      (pace.mutualAuthenticate rich world step).erase forget view storage := by
  have hselection : (pace.erase forget storage).selection = pace.selection := rfl
  have hsuspend : (pace.erase forget storage).isSuspended = pace.isSuspended := rfl
  have htaken : ({ pace.erase forget storage with selection := none } : Pace μ W) =
      ({ pace with selection := none } : Pace ν V).erase forget storage := rfl
  have hkept : ({ pace with selection := none } : Pace ν V).storage = some access := hstorage
  rw [mutualAuthenticate_eq, mutualAuthenticate_eq, hselection]
  cases authenticationData step terminalTokenTag with
  | error fault => rfl
  | ok token =>
    cases pace.selection with
    | none => rfl
    | some selection =>
      simp only [readPassword_erase hview hstorage]
      rcases pace.readPassword selection.password world with ⟨fault | stored, next⟩
      · rfl
      · simp only [Prod.map_apply, id_eq, hsuspend, htaken, verify_erase hforget hview hkept]
        split
        · rfl
        · split <;> rfl

theorem act_erase (hforget : Mechanism.Erases forget rich plain)
    (hview : Storage.Erases view access storage) (hstorage : pace.storage = some access)
    (world : V) (step : Step) (state : State) :
    (pace.erase forget storage).act plain (view world) step state =
      (pace.act rich world step state).erase forget view storage := by
  cases state with
  | established =>
    have hestablished : (pace.erase forget storage).established = pace.established := rfl
    simp only [act, announce, hestablished]
    cases pace.established <;> rfl
  | idle =>
    rw [act, act]
    split
    · exact select_erase hforget hview hstorage
    · split <;> rfl
  | authenticating progress =>
    rw [act, act]
    split
    · exact select_erase hforget hview hstorage
    · cases progress <;> unfold authenticate <;> dsimp only <;> split
      · exact sendNonce_erase hforget hview hstorage
      · split <;> rfl
      · exact mapNonce_erase hforget
      · split <;> rfl
      · exact agreeOnKey_erase hforget
      · split <;> rfl
      · exact mutualAuthenticate_erase hforget hview hstorage
      · split <;> rfl

/-! ### Commands -/

/-- What is left of an engine. -/
def eraseEngine (forget : ν → μ) (plain : Storage W) (engine : Driver ν V) : Driver μ W :=
  ⟨engine.data.erase forget plain, engine.state, engine.history, engine.registry,
    engine.maxTransitions⟩

/-- What is left of a command under way. -/
def eraseRun (forget : ν → μ) (view : V → W) (plain : Storage W)
    (run : Engine.Run State Mode (Pace ν V) V) : Engine.Run State Mode (Pace μ W) W :=
  ⟨eraseEngine forget plain run.engine, view run.world, run.context, run.stop⟩

theorem storage_of_advance {run run' : Engine.Run State Mode (Pace ν V) V}
    (hrun : run.engine.data.storage = some access)
    (h : Engine.advance (protocol rich) name run = .ok run') :
    run'.engine.data.storage = some access := by
  rw [advance_eq] at h
  cases h
  have hacts := acts_act rich run.engine.data run.world ⟨name, run.engine.registry, run.context⟩
    run.engine.state
  exact (frame_of_acts hacts).2.trans hrun

theorem advance_erase (hforget : Mechanism.Erases forget rich plain)
    (hview : Storage.Erases view access storage) {run : Engine.Run State Mode (Pace ν V) V}
    (hrun : run.engine.data.storage = some access) :
    Engine.advance (protocol plain) name (eraseRun forget view storage run) =
      (Engine.advance (protocol rich) name run).map (eraseRun forget view storage) := by
  have hact := act_erase hforget hview hrun run.world ⟨name, run.engine.registry, run.context⟩
    run.engine.state
  rw [advance_eq, advance_eq]
  dsimp only [eraseRun, eraseEngine]
  rw [hact]
  rfl

theorem loop_erase (hforget : Mechanism.Erases forget rich plain)
    (hview : Storage.Erases view access storage) (limit : Nat)
    {run : Engine.Run State Mode (Pace ν V) V} (hrun : run.engine.data.storage = some access) :
    Engine.loop (protocol plain) name limit (eraseRun forget view storage run) =
      (Engine.loop (protocol rich) name limit run).map (eraseRun forget view storage) := by
  refine Engine.loop_map (f := eraseRun forget view storage)
    (P := fun run => run.engine.data.storage = some access) (fun _ => rfl) ?_
    (fun _ hrun => advance_erase hforget hview hrun)
    (fun _ _ hrun hadvance _ => storage_of_advance hrun hadvance) limit fun _ => hrun
  intro run
  rw [giveUp_eq, giveUp_eq]
  rfl

theorem process_eq (engine : Driver ν V) (world : V) (context : Context) :
    Engine.process (protocol rich) engine world context =
      (Engine.loop (protocol rich) name engine.maxTransitions
        ⟨engine, world, context, false⟩).map fun run => (run.engine, run.world, run.context) := by
  have hname : (protocol rich : Protocol State Mode (Pace ν V) V).name engine.data = name := rfl
  unfold Engine.process
  rw [hname]
  cases Engine.loop (protocol rich) name engine.maxTransitions ⟨engine, world, context, false⟩ <;>
    rfl

theorem process_erase (hforget : Mechanism.Erases forget rich plain)
    (hview : Storage.Erases view access storage) {engine : Driver ν V}
    (hengine : engine.data.storage = some access) (world : V) (context : Context) :
    Engine.process (protocol plain) (eraseEngine forget storage engine) (view world) context =
      (Engine.process (protocol rich) engine world context).map fun (engine, world, context) =>
        (eraseEngine forget storage engine, view world, context) := by
  let run : Engine.Run State Mode (Pace ν V) V := ⟨engine, world, context, false⟩
  have hrun : run.engine.data.storage = some access := hengine
  have hloop : Engine.loop (protocol plain) name (eraseEngine forget storage engine).maxTransitions
      ⟨eraseEngine forget storage engine, view world, context, false⟩ = _ :=
    loop_erase hforget hview engine.maxTransitions hrun
  rw [process_eq, process_eq, hloop]
  cases Engine.loop (protocol rich) name engine.maxTransitions run <;> rfl

theorem storage_of_answers {engine engine' : Driver ν V} {world world' : V}
    {context context' : Context} (hengine : engine.data.storage = some access)
    (hanswers : Answers rich engine world context engine' world' context') :
    engine'.data.storage = some access := by
  cases hanswers with
  | untouched | unannounced | announced => exact hengine
  | settled _ hacts => exact (frame_of_acts hacts).2.trans hengine

theorem reset_erase (hforget : Mechanism.Erases forget rich plain) (engine : Driver ν V)
    (world : V) :
    (eraseEngine forget storage engine).reset (protocol plain) (view world) =
      (engine.reset (protocol rich) world).map (eraseEngine forget storage) view := by
  have hdata : (engine.data.erase forget storage).endSession plain =
      (engine.data.endSession rich).erase forget storage := by
    simp only [endSession, restart, erase, hforget.reset]
  simp only [Engine.reset, protocol, eraseEngine, hdata]
  rfl

end

/-! ### Sessions -/

namespace Session

/-- What is left of a session. -/
def erase (forget : ν → μ) (view : V → W) (plain : Storage W) (session : Session ν V) :
    Session μ W :=
  ⟨eraseEngine forget plain session.engine, view session.world⟩

variable {forget : ν → μ} {view : V → W} {rich : Mechanism ν} {plain : Mechanism μ}
  {access : Storage V} {storage : Storage W}

theorem step_erase (hforget : Mechanism.Erases forget rich plain)
    (hview : Storage.Erases view access storage) {session : Session ν V} (input : Input)
    (hsession : session.engine.data.storage = some access) :
    step plain (session.erase forget view storage) input =
      (step rich session input).map fun (output, next) =>
        (output, next.erase forget view storage) := by
  cases input with
  | reset =>
    have hreset : (session.erase forget view storage).engine.reset (protocol plain)
        (session.erase forget view storage).world = _ :=
      reset_erase hforget session.engine session.world
    rw [step, step, hreset]
    rfl
  | command context =>
    have hprocess : (session.erase forget view storage).engine.process (protocol plain)
        (session.erase forget view storage).world context = _ :=
      process_erase hforget hview hsession session.world context
    rw [step, step, hprocess]
    cases session.engine.process (protocol rich) session.world context <;> rfl

theorem storage_of_step {session next : Session ν V} {input : Input} {output : Option Context}
    (hsession : session.engine.data.storage = some access)
    (hstep : session.step rich input = .ok (output, next)) :
    next.engine.data.storage = some access := by
  have hsteps := steps_of_step hstep
  cases hsteps with
  | reset => exact hsession
  | command hanswers => exact storage_of_answers hsession hanswers

/-- Keeping records makes no difference: without them, a recorded run is the run itself. -/
theorem run_recorded (mechanism : Mechanism μ) (storage : Storage W) (data : μ) (options : Options)
    (maxTransitions : Nat) (world : W) (inputs : List Input) :
    run (step mechanism) (start mechanism storage data options maxTransitions world) inputs =
      (run (step mechanism.recorded)
        (.recorded mechanism storage data options maxTransitions world) inputs).map
          (List.map (Turn.map (erase Prod.fst Prod.fst storage))) := by
  have hforget := mechanism.erases_recorded
  have hview := storage.erases_recorded
  have hstart : (recorded mechanism storage data options maxTransitions world).engine.data.storage =
      some storage.recorded := rfl
  exact run_map (fun _ input h => step_erase hforget hview input h)
    (fun _ _ _ _ h hstep => storage_of_step h hstep) inputs hstart

end Session

/-! ### Cards -/

namespace Emulation

/-- What is left of a card. -/
def erase (forget : ν → μ) (view : V → W) (plain : Storage W) (emulation : Emulation ν V) :
    Emulation μ W :=
  ⟨⟨plain, emulation.card.handlers.map (eraseEngine forget plain), emulation.card.options,
    emulation.card.received⟩, view emulation.world⟩

variable {forget : ν → μ} {view : V → W} {rich : Mechanism ν} {plain : Mechanism μ}
  {access : Storage V} {storage : Storage W}

theorem offer_erase (hforget : Mechanism.Erases forget rich plain)
    (hview : Storage.Erases view access storage) {engines : List (Driver ν V)}
    (hengines : ∀ engine ∈ engines, engine.data.storage = some access) (world : V)
    (context : Context) :
    Card.offer (protocol plain).handler (engines.map (eraseEngine forget storage)) (view world)
        context =
      (Card.offer (protocol rich).handler engines world context).map
        fun (engines, world, context) =>
          (engines.map (eraseEngine forget storage), view world, context) := by
  induction engines generalizing world context with
  | nil => rfl
  | cons engine rest ih =>
    have hprocess : (protocol plain).handler.process (eraseEngine forget storage engine)
        (view world) context = _ :=
      process_erase hforget hview (hengines engine List.mem_cons_self) world context
    have hrest := fun other hmem => hengines other (List.mem_cons_of_mem engine hmem)
    rw [List.map_cons, Card.offer, Card.offer]
    split
    · rfl
    · rw [hprocess]
      have hrich : (protocol rich).handler.process engine world context =
          engine.process (protocol rich) world context := rfl
      rw [hrich]
      cases engine.process (protocol rich) world context with
      | error violation => rfl
      | ok answer =>
        obtain ⟨engine, world, context⟩ := answer
        simp only [Except.map, ih hrest]
        cases Card.offer (protocol rich).handler rest world context <;> rfl

theorem resetAll_erase (hforget : Mechanism.Erases forget rich plain)
    (engines : List (Driver ν V)) (world : V) :
    Card.resetAll (protocol plain).handler (engines.map (eraseEngine forget storage))
        (view world) =
      (Card.resetAll (protocol rich).handler engines world).map
        (List.map (eraseEngine forget storage)) view := by
  induction engines generalizing world with
  | nil => rfl
  | cons engine rest ih =>
    have hreset : (protocol plain).handler.reset (eraseEngine forget storage engine) (view world) =
        _ := reset_erase hforget engine world
    rw [List.map_cons, Card.resetAll, Card.resetAll, hreset]
    simp only [Prod.map, ih]
    rfl

theorem step_erase (hforget : Mechanism.Erases forget rich plain)
    (hview : Storage.Erases view access storage) {emulation : Emulation ν V}
    (hengines : ∀ engine ∈ emulation.card.handlers, engine.data.storage = some access)
    (input : Input) :
    step plain (emulation.erase forget view storage) input =
      (step rich emulation input).map fun (output, next) =>
        (output, next.erase forget view storage) := by
  cases input with
  | resetHistory =>
    have hhandlers : (emulation.card.handlers.map (eraseEngine forget storage)).map
        (protocol plain).handler.resetHistory =
        (emulation.card.handlers.map (protocol rich).handler.resetHistory).map
          (eraseEngine forget storage) := by
      rw [List.map_map, List.map_map]
      rfl
    simp only [step, erase, Card.resetHistory, hhandlers]
    rfl
  | reset =>
    have hreset : Card.resetAll (protocol plain).handler
        (emulation.erase forget view storage).card.handlers
        (emulation.erase forget view storage).world = _ :=
      resetAll_erase hforget emulation.card.handlers emulation.world
    rw [step, step, Card.reset, Card.reset, hreset]
    rfl
  | handle bytes =>
    rw [step, step, Card.handle, Card.handle]
    cases Command.decode bytes with
    | error error => rfl
    | ok command =>
      have hoffer : Card.offer (protocol plain).handler
          (emulation.erase forget view storage).card.handlers
          (emulation.erase forget view storage).world
          (.start (.root (.received emulation.card.received) command)) = _ :=
        offer_erase hforget hview hengines emulation.world _
      dsimp only
      rw [Card.process, Card.process]
      have hreceived : (emulation.erase forget view storage).card.received =
          emulation.card.received := rfl
      rw [hreceived, hoffer]
      cases Card.offer (protocol rich).handler emulation.card.handlers emulation.world
        (.start (.root (.received emulation.card.received) command)) <;> rfl

/-- A card with the engine of PACE alone, which has access to the card state. -/
def Attached (access : Storage V) (emulation : Emulation ν V) : Prop :=
  ∃ engine, emulation.card.handlers = [engine] ∧ engine.data.storage = some access

theorem attached_of_step {emulation next : Emulation ν V} {input : Input}
    {output : Option Response} (hattached : Attached access emulation)
    (hstep : emulation.step rich input = .ok (output, next)) : Attached access next := by
  obtain ⟨engine, hhandlers, hstorage⟩ := hattached
  obtain ⟨_, _, engine', hsame, hhandlers', hsteps⟩ := steps_step rich hhandlers input
  rw [hstep] at hsame
  cases hsame
  refine ⟨engine', hhandlers', ?_⟩
  generalize next.world = world' at hsteps
  cases hsteps with
  | malformed | reset | resetHistory => exact hstorage
  | command hanswers => exact storage_of_answers hstorage hanswers

/-- Keeping records of the calls makes no difference to a card either. -/
theorem run_recorded (mechanism : Mechanism μ) (storage : Storage W) (data : μ)
    (paceOptions : Options) (options : Card.Options) (world : W) (inputs : List Input) :
    run (step mechanism) (start mechanism storage data paceOptions options world) inputs =
      (run (step mechanism.recorded)
        (start mechanism.recorded storage (data, []) paceOptions options world) inputs).map
          (List.map (Turn.map (erase Prod.fst id storage))) := by
  have hforget := mechanism.erases_recorded
  have hview := storage.erases_refl
  have hstart : Attached storage
      (start mechanism.recorded storage (data, []) paceOptions options world) := ⟨_, rfl, rfl⟩
  have herase : ∀ emulation input, Attached storage emulation →
      step mechanism (emulation.erase Prod.fst id storage) input =
        (step mechanism.recorded emulation input).map fun (output, next) =>
          (output, next.erase Prod.fst id storage) := by
    rintro emulation input ⟨engine, hhandlers, hstorage⟩
    refine step_erase hforget hview ?_ input
    rw [hhandlers]
    simpa using hstorage
  exact run_map herase (fun _ _ _ _ h hstep => attached_of_step h hstep) inputs hstart

end Emulation

end Pace

end SmartCard
