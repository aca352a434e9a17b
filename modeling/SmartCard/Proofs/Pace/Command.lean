import SmartCard.Proofs.Pace.Transition
import SmartCard.Protocol.Engine

/-!
# What one command makes PACE do

The engine runs one transition for a command, or two if an authentication succeeded: the second one
announces the keys. `Answers` lists what a command can come to on an engine that rests, and
`process_answers` shows that there is always an answer.
-/

namespace SmartCard.Pace

variable {μ W : Type}

/-- Engines that drive PACE. -/
abbrev Driver (μ W : Type) := Engine State Mode (Pace μ W)

/-- Whether the response is a warning or an error. -/
def hasFailed (context : Context) : Bool :=
  context.response.any fun response => response.status.isWarning || response.status.isError

namespace Outcome

/-- The context after a transition: with what it recorded and with the fault that it raised. -/
def answered (outcome : Outcome μ W) (context : Context) : Context :=
  let noted := outcome.notes.foldl (Note.recordIn name) context
  match outcome.next with
  | .ok _ => noted
  | .error fault => noted.respond name fault.reason (.ofStatus fault.status)

/-- The state after a transition from `state`. -/
def settled (outcome : Outcome μ W) (context : Context) (state : State) : State :=
  match outcome.next with
  | .ok (some next) => next
  | _ => if hasFailed (outcome.answered context) then .idle else state

/-- Whether no transition follows for the same command. -/
def stops (outcome : Outcome μ W) : Bool :=
  match outcome.next with
  | .ok (some _) => outcome.stop
  | _ => true

end Outcome

section

variable (fault : Fault) (pace : Pace μ W) (world : W) (context : Context) (state : State)

@[simp] theorem stops_fail : (Outcome.fail fault pace world).stops = true := rfl

@[simp] theorem pace_fail : (Outcome.fail fault pace world).pace = pace := rfl

@[simp] theorem world_fail : (Outcome.fail fault pace world).world = world := rfl

@[simp] theorem stops_unmatched : (Outcome.unmatched pace world).stops = true := rfl

@[simp] theorem pace_unmatched : (Outcome.unmatched pace world).pace = pace := rfl

theorem settled_fail :
    (Outcome.fail fault pace world).settled context state = state ∨
      (Outcome.fail fault pace world).settled context state = .idle := by
  unfold Outcome.settled Outcome.fail
  dsimp only
  split
  · exact .inr rfl
  · exact .inl rfl

theorem settled_fail_of_isError (herror : fault.status.isError = true) :
    (Outcome.fail fault pace world).settled context state = .idle := by
  have hfailed : hasFailed ((Outcome.fail fault pace world).answered context) = true := by
    simp [Outcome.fail, Outcome.answered, hasFailed, Context.respond, Context.record,
      Delta.ofResponse, Response.ofStatus, herror]
  unfold Outcome.settled
  rw [hfailed]
  rfl

theorem settled_unmatched :
    (Outcome.unmatched pace world).settled context state = state ∨
      (Outcome.unmatched pace world).settled context state = .idle := by
  unfold Outcome.settled Outcome.unmatched
  dsimp only
  split
  · exact .inr rfl
  · exact .inl rfl

variable (message : String) (inner : Tag) (next : Progress) (result : Except Fault Bytes × μ)

@[simp] theorem stops_answerStep :
    (pace.answerStep world message inner next result).stops = true := by
  obtain ⟨fault | data, mechanism⟩ := result <;> rfl

@[simp] theorem pace_answerStep :
    (pace.answerStep world message inner next result).pace =
      { pace with mechanism := result.2 } := by
  obtain ⟨fault | data, mechanism⟩ := result <;> rfl

@[simp] theorem world_answerStep :
    (pace.answerStep world message inner next result).world = world := by
  obtain ⟨fault | data, mechanism⟩ := result <;> rfl

/-- A step that the mechanism answered leads on, and one that it did not answer leads nowhere. -/
theorem settled_answerStep :
    (result.1.toBool = true ∧ (pace.answerStep world message inner next result).settled context
        state = .authenticating next) ∨
      (result.1.toBool = false ∧
        ((pace.answerStep world message inner next result).settled context state = state ∨
          (pace.answerStep world message inner next result).settled context state = .idle)) := by
  obtain ⟨fault | data, mechanism⟩ := result
  · exact .inr ⟨rfl, settled_fail ..⟩
  · exact .inl ⟨rfl, rfl⟩

end

variable (mechanism : Mechanism μ)

/-! ### The engine without entry actions and history -/

theorem moveTo_eq (protocolName : String) (run : Engine.Run State Mode (Pace μ W) W)
    (next : State) :
    Engine.moveTo (protocol mechanism) protocolName run next =
      .ok { run with engine := { run.engine with state := next } } := by
  unfold Engine.moveTo
  dsimp only
  split
  · rfl
  · simp [protocol, Engine.remember, Engine.resume]

theorem abort_eq (protocolName : String) (run : Engine.Run State Mode (Pace μ W) W) :
    Engine.abort (protocol mechanism) protocolName run =
      .ok { run with
        engine := { run.engine with
          state := if hasFailed run.context then .idle else run.engine.state }
        stop := true } := by
  have hfailed : (Step.mk protocolName run.engine.registry run.context).hasFailed =
      hasFailed run.context := by
    unfold Step.hasFailed Step.status? hasFailed
    cases run.context.response <;> rfl
  unfold Engine.abort
  dsimp only
  rw [hfailed, moveTo_eq]
  split <;> rfl

theorem transition_eq (pace : Pace μ W) (world : W) (step : Step) (state : State) :
    (protocol mechanism).transition pace world step state =
      let outcome := pace.act mechanism world step state
      .ok ⟨outcome.next, outcome.pace, outcome.world,
        outcome.notes.foldl (Note.recordIn step.protocol) step.context, outcome.stop⟩ := rfl

theorem advance_eq (run : Engine.Run State Mode (Pace μ W) W) :
    Engine.advance (protocol mechanism) name run =
      let outcome := run.engine.data.act mechanism run.world
        ⟨name, run.engine.registry, run.context⟩ run.engine.state
      .ok ⟨{ run.engine with
          data := outcome.pace, state := outcome.settled run.context run.engine.state },
        outcome.world, outcome.answered run.context, run.stop || outcome.stops⟩ := by
  unfold Engine.advance
  simp only [transition_eq]
  generalize run.engine.data.act mechanism run.world
    ⟨name, run.engine.registry, run.context⟩ run.engine.state = outcome
  obtain ⟨next, pace, world, notes, stop⟩ := outcome
  rcases next with fault | _ | next
  · simp only [abort_eq, Outcome.settled, Outcome.answered, Outcome.stops, Bool.or_true]
    rfl
  · simp only [abort_eq, Outcome.settled, Outcome.answered, Outcome.stops, Bool.or_true]
    rfl
  · simp [moveTo_eq, Outcome.settled, Outcome.answered, Outcome.stops]

/-! ### Transitions that leave another one to do -/

/-- The context after a token was accepted. -/
def acknowledged (context : Context) (authentication : Authentication) : Context :=
  context.respond name "authentication token"
    (authenticationResponse cardTokenTag authentication.token)

/-- A token was verified with success, and restoring the counter, if that was needed, did not
fail. -/
structure Grants (pace : Pace μ W) (world : W) (step : Step) (token : Bytes) (selection : Selection)
    (stored : PasswordState) (authentication : Authentication) (data : μ) (read world' : W) :
    Prop where
  presents : Presents pace world step token selection stored read
  called : mechanism.mutualAuthenticate token pace.mechanism = (.ok (some authentication), data)
  restored : pace.restoreCounter selection.password stored read = (.ok (), world')

/-- Only a token that was accepted leaves another transition to do. -/
theorem grants_of_not_stops {pace : Pace μ W} {world : W} {step : Step} {state : State}
    {outcome : Outcome μ W} (hacts : Acts mechanism pace world step state outcome)
    (hstops : outcome.stops = false) :
    ∃ token selection stored authentication data read world',
      state = .authenticating .keyAgreed ∧
      Grants mechanism pace world step token selection stored authentication data read world' ∧
      outcome = ⟨.ok (some .established), granted pace data selection authentication, world',
        [.response "authentication token"
          (authenticationResponse cardTokenTag authentication.token)], false⟩ := by
  cases hacts with
  | announced h => simp [announce, h, Outcome.stops] at hstops
  | unannounced h => simp [announce, h] at hstops
  | selected => simp [Outcome.stops] at hstops
  | verified hverifies =>
    cases hverifies with
    | accepted hpresents hcall hrestored =>
      exact ⟨_, _, _, _, _, _, _, rfl, ⟨hpresents, hcall, hrestored⟩, rfl⟩
    | rejected => simp [Outcome.stops] at hstops
    | _ => simp at hstops
  | _ => simp at hstops

/-! ### One command -/

/-- The context after keys were announced. -/
def announcedIn (context : Context) (selection : Selection) (keys : SessionKeys) : Context :=
  ((context.propagate name "PACE established" (.mechanism
    (.pace selection.password selection.oid (selection.chat.map (·.encoded))))).propagate name
    "session keys" (.sessionKeys keys)).propagate name "secure messaging"
    (.event .secureMessagingEstablished)

/-- The context after a command that took too many transitions. -/
def exhausted (context : Context) : Context :=
  context.respond name "transition limit reached" (.ofStatus .unknownError)

/-- Everything that a command can come to on an engine that rests: what becomes of the engine, of
the card state and of the context. -/
inductive Answers (engine : Driver μ W) (world : W) (context : Context) :
    Driver μ W → W → Context → Prop
  | untouched (hlimit : engine.maxTransitions = 0) :
      Answers engine world context { engine with state := .idle } world (exhausted context)
  | settled {outcome : Outcome μ W} (hlimit : 0 < engine.maxTransitions)
      (hacts : Acts mechanism engine.data world ⟨name, engine.registry, context⟩ engine.state
        outcome)
      (hstops : outcome.stops = true) :
      Answers engine world context
        { engine with data := outcome.pace, state := outcome.settled context engine.state }
        outcome.world (outcome.answered context)
  /-- The limit keeps the keys from being announced. -/
  | unannounced {token : Bytes} {selection : Selection} {stored : PasswordState}
      {authentication : Authentication} {data : μ} {read world' : W}
      (hlimit : engine.maxTransitions = 1) (hstate : engine.state = .authenticating .keyAgreed)
      (hgrants : Grants mechanism engine.data world ⟨name, engine.registry, context⟩ token
        selection stored authentication data read world') :
      Answers engine world context
        { engine with data := granted engine.data data selection authentication, state := .idle }
        world' (exhausted (acknowledged context authentication))
  | announced {token : Bytes} {selection : Selection} {stored : PasswordState}
      {authentication : Authentication} {data : μ} {read world' : W}
      (hlimit : 2 ≤ engine.maxTransitions) (hstate : engine.state = .authenticating .keyAgreed)
      (hgrants : Grants mechanism engine.data world ⟨name, engine.registry, context⟩ token
        selection stored authentication data read world') :
      Answers engine world context
        { engine with
          data := { granted engine.data data selection authentication with established := none }
          state := .idle }
        world'
        (announcedIn (acknowledged context authentication) selection authentication.keys)

theorem giveUp_eq (run : Engine.Run State Mode (Pace μ W) W) :
    Engine.giveUp (protocol mechanism) name run =
      .ok { run with
        engine := { run.engine with state := .idle }
        context := exhausted run.context } := by
  unfold Engine.giveUp
  exact moveTo_eq ..

/-- A command always comes to an answer. -/
theorem process_answers (engine : Driver μ W) (world : W) (context : Context) :
    ∃ engine' world' context', Engine.process (protocol mechanism) engine world context =
        .ok (engine', world', context') ∧
      Answers mechanism engine world context engine' world' context' := by
  have hname : (protocol mechanism : Protocol State Mode (Pace μ W) W).name engine.data = name :=
    rfl
  unfold Engine.process
  rw [hname]
  cases hlimit : engine.maxTransitions with
  | zero =>
    refine ⟨_, _, _, ?_, .untouched hlimit⟩
    rw [Engine.loop, giveUp_eq]
  | succ limit =>
    have hacts := acts_act mechanism engine.data world ⟨name, engine.registry, context⟩ engine.state
    rw [Engine.loop, advance_eq]
    dsimp only
    generalize engine.data.act mechanism world ⟨name, engine.registry, context⟩ engine.state =
      outcome at hacts ⊢
    cases hstops : outcome.stops with
    | true =>
      refine ⟨_, _, _, ?_, .settled (by omega) hacts hstops⟩
      simp
    | false =>
      obtain ⟨token, selection, stored, authentication, data, read, world', hstate, hgrants, rfl⟩ :=
        grants_of_not_stops mechanism hacts hstops
      cases limit with
      | zero =>
        refine ⟨_, _, _, ?_, .unannounced hlimit hstate hgrants⟩
        simp only [Bool.false_or, Bool.false_eq_true, if_false, Engine.loop, giveUp_eq]
        rfl
      | succ limit =>
        refine ⟨_, _, _, ?_, .announced (by omega) hstate hgrants⟩
        -- the second transition reads neither the command nor the card state
        simp only [Bool.false_or, Bool.false_eq_true, if_false, Engine.loop]
        rfl

/-- A command that is done after one transition. -/
theorem process_of_stops (engine : Driver μ W) (world : W) (context : Context)
    (hlimit : 0 < engine.maxTransitions)
    (hstops : (engine.data.act mechanism world ⟨name, engine.registry, context⟩
      engine.state).stops = true) :
    let outcome := engine.data.act mechanism world ⟨name, engine.registry, context⟩ engine.state
    Engine.process (protocol mechanism) engine world context =
      .ok ({ engine with data := outcome.pace, state := outcome.settled context engine.state },
        outcome.world, outcome.answered context) := by
  have hname : (protocol mechanism : Protocol State Mode (Pace μ W) W).name engine.data = name :=
    rfl
  obtain ⟨limit, hlimit⟩ := Nat.exists_eq_succ_of_ne_zero hlimit.ne'
  unfold Engine.process
  rw [hname, hlimit, Engine.loop, advance_eq]
  simp only [hstops, Bool.or_true, if_true, hlimit]

/-- Announcing keys is done after one transition, which leaves the mechanism and the card state as
they are. -/
theorem announce_frame (pace : Pace μ W) (world : W) :
    (pace.announce world).stops = true ∧ (pace.announce world).world = world ∧
      (pace.announce world).pace.mechanism = pace.mechanism := by
  unfold announce
  cases pace.established with
  | none => exact ⟨rfl, rfl, rfl⟩
  | some established => exact ⟨rfl, rfl, rfl⟩

/-- A command after whose first transition keys are to be announced. Neither the announcement nor
the limit that keeps it back touches the mechanism and the card state. -/
theorem process_of_established {pace : Pace μ W} {world' : W} {notes : List Note} {stop : Bool}
    (engine : Driver μ W) (world : W) (context : Context) (hlimit : 0 < engine.maxTransitions)
    (hact : engine.data.act mechanism world ⟨name, engine.registry, context⟩ engine.state =
      ⟨.ok (some .established), pace, world', notes, stop⟩) :
    ∃ engine' context', Engine.process (protocol mechanism) engine world context =
        .ok (engine', world', context') ∧ engine'.data.mechanism = pace.mechanism := by
  have hname : (protocol mechanism : Protocol State Mode (Pace μ W) W).name engine.data = name :=
    rfl
  obtain ⟨limit, hlimit⟩ := Nat.exists_eq_succ_of_ne_zero hlimit.ne'
  unfold Engine.process
  rw [hname, hlimit, Engine.loop, advance_eq, hact]
  cases stop with
  | true => exact ⟨_, _, rfl, rfl⟩
  | false =>
    obtain ⟨hstops, hworld, hdata⟩ := announce_frame pace world'
    have hgoes : (Outcome.mk (.ok (some .established)) pace world' notes false).stops = false := rfl
    have hnext : (Outcome.mk (.ok (some .established)) pace world' notes false).settled context
        engine.state = .established := rfl
    simp only [hgoes, Bool.or_false, Bool.false_eq_true, if_false]
    cases limit with
    | zero =>
      rw [Engine.loop, giveUp_eq]
      exact ⟨_, _, rfl, rfl⟩
    | succ limit =>
      rw [Engine.loop, advance_eq]
      simp only [hnext, act, hstops, Bool.or_true, if_true, hworld]
      exact ⟨_, _, rfl, hdata⟩

end SmartCard.Pace
