import SmartCard.Card.Basic
import SmartCard.Proofs.Pace.Command
import SmartCard.Proofs.Pace.Recorded
import SmartCard.Proofs.Run

/-!
# Sessions of PACE

An engine that drives PACE takes commands and resets in any order. Between them it never rests with
keys that are still to be announced, and what it holds as the selection comes from the last
selection command that was accepted.
-/

namespace SmartCard.Pace

variable {μ W : Type}

/-- An engine together with the card state. -/
structure Session (μ W : Type) where
  engine : Driver μ W
  world : W

/-- What happens to a session. -/
inductive Input where
  | command (context : Context)
  | reset

/-- A turn of a session. A command gives the context that it was processed in back. -/
abbrev Exchange (μ W : Type) := Turn (Session μ W) Input (Option Context)

namespace Session

/-- An engine that has not seen any command, with access to a card state. -/
def start (mechanism : Mechanism μ) (storage : Storage W) (data : μ) (options : Options)
    (maxTransitions : Nat) (world : W) : Session μ W :=
  ⟨(protocol mechanism).handler.attach storage
    (.start (protocol mechanism : Protocol State Mode (Pace μ W) W) (.new data options)
      maxTransitions), world⟩

/-- The same, with a record of the calls of the mechanism and one of the writes. -/
def recorded (mechanism : Mechanism μ) (storage : Storage W) (data : μ) (options : Options)
    (maxTransitions : Nat) (world : W) : Session (μ × List Call) (W × List Write) :=
  start mechanism.recorded storage.recorded (data, []) options maxTransitions (world, [])

def step (mechanism : Mechanism μ) (session : Session μ W) :
    Input → Except Violation (Option Context × Session μ W)
  | .command context =>
    match session.engine.process (protocol mechanism) session.world context with
    | .error violation => .error violation
    | .ok (engine, world, context) => .ok (some context, ⟨engine, world⟩)
  | .reset =>
    let (engine, world) := session.engine.reset (protocol mechanism) session.world
    .ok (none, ⟨engine, world⟩)

/-- What a step comes to. -/
inductive Steps (mechanism : Mechanism μ) (session : Session μ W) :
    Input → Option Context → Session μ W → Prop
  | command {context context' : Context} {engine' : Driver μ W} {world' : W}
      (hanswers : Answers mechanism session.engine session.world context engine' world' context') :
      Steps mechanism session (.command context) (some context') ⟨engine', world'⟩
  | reset :
      Steps mechanism session .reset none
        ⟨{ session.engine with data := session.engine.data.endSession mechanism, state := .idle },
          session.world⟩

theorem steps_step (mechanism : Mechanism μ) (session : Session μ W) (input : Input) :
    ∃ output session', session.step mechanism input = .ok (output, session') ∧
      Steps mechanism session input output session' := by
  cases input with
  | command context =>
    obtain ⟨engine', world', context', hprocess, hanswers⟩ :=
      process_answers mechanism session.engine session.world context
    refine ⟨some context', ⟨engine', world'⟩, ?_, .command hanswers⟩
    rw [step, hprocess]
  | reset => exact ⟨none, _, rfl, .reset⟩

theorem steps_of_step {mechanism : Mechanism μ} {session session' : Session μ W} {input : Input}
    {output : Option Context} (h : session.step mechanism input = .ok (output, session')) :
    Steps mechanism session input output session' := by
  obtain ⟨output, session', hstep, hsteps⟩ := steps_step mechanism session input
  rw [hstep] at h
  cases h
  exact hsteps

/-- What every step preserves holds before every turn of a session. -/
theorem exists_turns {mechanism : Mechanism μ} {start : Session μ W}
    {Inv : List (Exchange μ W) → Session μ W → Prop} (hstart : Inv [] start)
    (hsteps : ∀ past session input output session', Inv past session →
      Steps mechanism session input output session' →
      Inv (past ++ [⟨session, input, output, session'⟩]) session')
    (inputs : List Input) :
    ∃ turns, run (step mechanism) start inputs = .ok turns ∧
      ∀ past turn future, turns = past ++ turn :: future → Inv past turn.before ∧
        turn.before.step mechanism turn.input = .ok (turn.output, turn.after) := by
  have hstep : ∀ past session input, Inv past session →
      ∃ output session', session.step mechanism input = .ok (output, session') ∧
        Inv (past ++ [⟨session, input, output, session'⟩]) session' := by
    intro past session input hinv
    obtain ⟨output, session', hstep, hcomes⟩ := session.steps_step mechanism input
    exact ⟨output, session', hstep, hsteps past session input output session' hinv hcomes⟩
  obtain ⟨turns, hrun, hturns⟩ := run_of_invariant hstart hstep inputs
  refine ⟨turns, hrun, ?_⟩
  intro past turn future hsplit
  exact (hturns past (turn :: future) hsplit).next turn future rfl

end Session

/-! ### The records -/

/-- The record of the calls, as the protocol holds it. -/
def calls (pace : Pace (μ × List Call) W) : List Call :=
  pace.mechanism.2

/-- The writes made in a turn. -/
def written (turn : Exchange μ (W × List Write)) : List Write :=
  turn.after.world.2.drop turn.before.world.2.length

theorem written_eq {turn : Exchange μ (W × List Write)} {written : List Write}
    (h : turn.after.world.2 = turn.before.world.2 ++ written) : Pace.written turn = written := by
  unfold Pace.written
  rw [h, List.drop_left]

/-- The calls made in a turn. -/
def made (turn : Exchange (μ × List Call) W) : List Call :=
  turn.after.engine.data.calls.drop turn.before.engine.data.calls.length

theorem made_eq {turn : Exchange (μ × List Call) W}
    {made : List Call}
    (h : turn.after.engine.data.calls = turn.before.engine.data.calls ++ made) :
    Pace.made turn = made := by
  unfold Pace.made
  rw [h, List.drop_left]

theorem calls_of_mutualAuthenticate {mechanism : Mechanism μ} {token : Bytes}
    {data data' : μ × List Call} {result : Except Fault (Option Authentication)}
    (hcall : mechanism.recorded.mutualAuthenticate token data = (result, data')) :
    data'.2 = data.2 ++ [.mutualAuthenticate token result] := by
  cases hcall
  rfl

/-- A call that does not verify a token. A nonce is encrypted under a secret that was read for the
selection, and everything else that is needed for it comes from the selection and the options. -/
def Prepares (pace : Pace (μ × List Call) W) (world : W) : Call → Prop
  | .encryptedNonce algorithm domainParameters secret _ => ∃ selection stored read,
      pace.selection = some selection ∧
      pace.readPassword selection.password world = (.ok stored, read) ∧
      algorithm = selection.algorithm ∧ domainParameters = pace.options.domainParameters ∧
      secret = stored.secret
  | .mutualAuthenticate .. => False
  | _ => True

/-- A transition verifies a token, or it only prepares that and reads the card state. -/
theorem verifies_or_prepares {mechanism : Mechanism μ} {pace : Pace (μ × List Call) W} {world : W}
    {step : Step} {state : State} {outcome : Outcome (μ × List Call) W}
    (hacts : Acts mechanism.recorded pace world step state outcome) :
    (state = .authenticating .keyAgreed ∧ Verifies mechanism.recorded pace world step outcome) ∨
      (Reads pace.storage world outcome.world ∧
        outcome.pace.canAuthenticated = pace.canAuthenticated ∧
        ∃ made, outcome.pace.calls = pace.calls ++ made ∧
          ∀ call ∈ made, pace.Prepares world call) := by
  cases hacts with
  | announced h =>
    refine .inr ⟨?_, ?_, [], ?_, nofun⟩
    · rw [announce, h]
      exact .refl world
    · rw [announce, h]
    · rw [announce, h, List.append_nil]
      rfl
  | unannounced h =>
    refine .inr ⟨?_, ?_, [], ?_, nofun⟩
    · rw [announce, h]
      exact .refl world
    · rw [announce, h]
      rfl
    · rw [announce, h, List.append_nil]
      rfl
  | refused _ _ _ hreads => exact .inr ⟨hreads, rfl, [.reset], rfl, by simp [Prepares]⟩
  | selected _ _ _ hpassword htrust =>
    have hreads := reads_of_checkTrust (reads_of_readPassword (.refl world) hpassword) htrust
    exact .inr ⟨hreads, rfl, [.reset], rfl, by simp [Prepares]⟩
  | outOfSequence | unmatched => exact .inr ⟨.refl world, rfl, [], by simp, nofun⟩
  | halted _ _ _ hreads => exact .inr ⟨hreads, rfl, [], by simp, nofun⟩
  | @sentNonce selection stored read _ _ hselection hpassword =>
    rw [pace_answerStep, world_answerStep]
    refine .inr ⟨reads_of_readPassword (.refl world) hpassword, rfl, [.encryptedNonce ..], rfl, ?_⟩
    intro call hcall
    rw [List.mem_singleton.mp hcall]
    exact ⟨selection, stored, read, hselection, hpassword, rfl, rfl, rfl⟩
  | mappedNonce =>
    rw [pace_answerStep, world_answerStep]
    exact .inr ⟨.refl world, rfl, [.mapNonce ..], rfl, by simp [Prepares]⟩
  | agreedOnKey =>
    rw [pace_answerStep, world_answerStep]
    exact .inr ⟨.refl world, rfl, [.keyAgreement ..], rfl, by simp [Prepares]⟩
  | withheld _ _ _ hreads => exact .inr ⟨hreads, rfl, [], by simp [calls], nofun⟩
  | verified hverifies => exact .inl ⟨rfl, hverifies⟩

theorem canAuthenticated_of_acts {mechanism : Mechanism μ} {pace : Pace (μ × List Call) W}
    {world : W} {step : Step} {state : State} {outcome : Outcome (μ × List Call) W}
    (hacts : Acts mechanism.recorded pace world step state outcome)
    (hstops : outcome.stops = true) :
    outcome.pace.canAuthenticated = pace.canAuthenticated := by
  rcases verifies_or_prepares hacts with ⟨_, hverifies⟩ | ⟨_, hsame, _⟩
  · cases hverifies with
    | accepted => simp [Outcome.stops] at hstops
    | _ => rfl
  · exact hsame

/-- Only a token for the access number resumes a suspended identification number. -/
theorem resumed_of_answers {mechanism : Mechanism μ} {engine engine' : Driver (μ × List Call) W}
    {world world' : W} {context context' : Context}
    (hanswers : Answers mechanism.recorded engine world context engine' world' context')
    (hcan : engine'.data.canAuthenticated = true) :
    engine.data.canAuthenticated = true ∨
      ∃ token authentication selection,
        engine'.data.calls = engine.data.calls ++
          [.mutualAuthenticate token (.ok (some authentication))] ∧
        engine.data.selection = some selection ∧ selection.password = .can := by
  have hgranted : ∀ {step token selection stored authentication data read world'},
      Grants mechanism.recorded engine.data world step token selection stored authentication data
        read world' →
      engine'.data.mechanism = data →
      (selection.password = .can || engine.data.canAuthenticated) = true →
      engine.data.canAuthenticated = true ∨
        ∃ token authentication selection,
          engine'.data.calls = engine.data.calls ++
            [.mutualAuthenticate token (.ok (some authentication))] ∧
          engine.data.selection = some selection ∧ selection.password = .can := by
    intro step token selection stored authentication data read world' hgrants hdata hcan
    rcases Bool.or_eq_true_iff.mp hcan with hcan | hcan
    · refine .inr ⟨token, authentication, selection, ?_, hgrants.presents.selected,
        of_decide_eq_true hcan⟩
      rw [calls, hdata]
      exact calls_of_mutualAuthenticate hgrants.called
    · exact .inl hcan
  cases hanswers with
  | untouched => exact .inl hcan
  | settled _ hacts hstops =>
    rw [canAuthenticated_of_acts hacts hstops] at hcan
    exact .inl hcan
  | unannounced _ _ hgrants | announced _ _ hgrants => exact hgranted hgrants rfl hcan

/-! ### What commands leave alone -/

theorem frame_of_acts {mechanism : Mechanism μ} {pace : Pace μ W} {world : W} {step : Step}
    {state : State} {outcome : Outcome μ W} (hacts : Acts mechanism pace world step state outcome) :
    outcome.pace.options = pace.options ∧ outcome.pace.storage = pace.storage := by
  cases hacts with
  | announced h => simp [announce, h]
  | unannounced h => simp [announce, h]
  | verified hverifies => cases hverifies <;> simp [granted]
  | _ => simp [restart]

/-- Between commands no keys are left to be announced. -/
theorem settled_ne_established {mechanism : Mechanism μ} {pace : Pace μ W} {world : W}
    {step : Step} {state : State} {outcome : Outcome μ W} (context : Context)
    (hacts : Acts mechanism pace world step state outcome) (hstops : outcome.stops = true)
    (hstate : state ≠ .established) : outcome.settled context state ≠ .established := by
  cases hacts with
  | announced | unannounced => exact absurd rfl hstate
  | selected => exact authenticating_ne_established _
  | verified hverifies =>
    cases hverifies with
    | rejected => exact idle_ne_established
    | accepted => simp [Outcome.stops] at hstops
    | _ =>
      rcases settled_fail .. with h | h <;> rw [h]
      · exact hstate
      · exact idle_ne_established
  | unmatched =>
    rcases settled_unmatched pace world context state with h | h <;> rw [h]
    · exact hstate
    · exact idle_ne_established
  | sentNonce | mappedNonce | agreedOnKey =>
    rcases settled_answerStep .. with ⟨_, h⟩ | ⟨_, h | h⟩ <;> rw [h]
    · exact authenticating_ne_established _
    · exact hstate
    · exact idle_ne_established
  | _ =>
    rcases settled_fail .. with h | h <;> rw [h]
    · exact hstate
    · exact idle_ne_established

/-- What has been set up, and that no keys are left to be announced. -/
structure Rests (storage : Storage W) (options : Options) (maxTransitions : Nat)
    (engine : Driver μ W) : Prop where
  registry : engine.registry = .ofList shapes
  limit : engine.maxTransitions = maxTransitions
  options : engine.data.options = options
  storage : engine.data.storage = some storage
  state : engine.state ≠ .established

theorem rests_start (mechanism : Mechanism μ) (storage : Storage W) (data : μ) (options : Options)
    (maxTransitions : Nat) (world : W) :
    Rests storage options maxTransitions
      (Session.start mechanism storage data options maxTransitions world).engine :=
  ⟨rfl, rfl, rfl, rfl, nofun⟩

variable {mechanism : Mechanism μ} {storage : Storage W} {options : Options} {maxTransitions : Nat}

theorem state_ne_established_of_answers {engine engine' : Driver μ W} {world world' : W}
    {context context' : Context} (hstate : engine.state ≠ .established)
    (hanswers : Answers mechanism engine world context engine' world' context') :
    engine'.state ≠ .established := by
  cases hanswers with
  | settled _ hacts hstops => exact settled_ne_established context hacts hstops hstate
  | _ => exact nofun

theorem rests_of_answers {engine engine' : Driver μ W} {world world' : W}
    {context context' : Context} (hrests : Rests storage options maxTransitions engine)
    (hanswers : Answers mechanism engine world context engine' world' context') :
    Rests storage options maxTransitions engine' := by
  obtain ⟨hregistry, hmax, hoptions, hstorage, hstate⟩ := hrests
  have hlater := state_ne_established_of_answers hstate hanswers
  cases hanswers with
  | settled _ hacts =>
    obtain ⟨hsameOptions, hsameStorage⟩ := frame_of_acts hacts
    exact ⟨hregistry, hmax, hsameOptions.trans hoptions, hsameStorage.trans hstorage, hlater⟩
  | _ => exact ⟨hregistry, hmax, hoptions, hstorage, hlater⟩

theorem rests_of_steps {session session' : Session μ W} {input : Input} {output : Option Context}
    (hrests : Rests storage options maxTransitions session.engine)
    (hsteps : Session.Steps mechanism session input output session') :
    Rests storage options maxTransitions session'.engine := by
  cases hsteps with
  | command hanswers => exact rests_of_answers hrests hanswers
  | reset => exact ⟨hrests.registry, hrests.limit, hrests.options, hrests.storage, nofun⟩

/-! ### The selection -/

theorem reference_of_ofReference? {byte : UInt8} {password : PasswordRef}
    (h : PasswordRef.ofReference? byte = some password) : password.reference = byte := by
  have hfound := List.find?_some h
  simpa using hfound

theorem content_of_passwordOf {objects : List Object} {password : PasswordRef}
    (h : Selection.passwordOf objects = .ok password) :
    content? passwordTag objects = some [password.reference] := by
  unfold Selection.passwordOf at h
  split at h
  · next reference hcontent =>
    split at h
    · next found hreference =>
      cases h
      rw [hcontent, reference_of_ofReference? hreference]
    · cases h
  · cases h

theorem content_of_algorithmOf {objects : List Object} {oid : Bytes} {algorithm : Algorithm}
    (h : Selection.algorithmOf options objects = .ok (oid, algorithm)) :
    content? algorithmTag objects = some oid ∧ Algorithm.ofOid? oid = some algorithm := by
  unfold Selection.algorithmOf at h
  split at h
  · cases h
  · next hcontent =>
    split at h
    · cases h
    · next hknown =>
      split at h
      · cases h
        exact ⟨hcontent, hknown⟩
      · cases h

theorem encoded_of_chatOf {objects : List Object} {chat : Option Chat}
    (h : Selection.chatOf objects = .ok chat) :
    chat.map (·.encoded) = (Object.atPath? [chatTag] objects).map Object.encode := by
  unfold Selection.chatOf at h
  split at h
  · next hnone =>
    cases h
    rw [hnone]
    rfl
  · next object hsome =>
    unfold Chat.ofObject at h
    dsimp only at h
    split at h
    · next hchat =>
      cases h
      split at hchat
      · cases hchat
        rw [hsome]
        rfl
      · cases hchat
    · cases h

/-- A selection is what its data objects name. -/
theorem content_of_ofObjects {objects : List Object} {selection : Selection}
    (h : Selection.ofObjects options objects = .ok selection) :
    content? algorithmTag objects = some selection.oid ∧
      Algorithm.ofOid? selection.oid = some selection.algorithm ∧
      content? passwordTag objects = some [selection.password.reference] ∧
      selection.chat.map (·.encoded) = (Object.atPath? [chatTag] objects).map Object.encode := by
  rw [ofObjects_eq] at h
  split at h
  · cases h
  next halgorithm =>
  split at h
  · cases h
  next hpassword =>
  split at h
  · cases h
  split at h
  · cases h
  next hchat =>
  cases h
  obtain ⟨hoid, hknown⟩ := content_of_algorithmOf halgorithm
  exact ⟨hoid, hknown, content_of_passwordOf hpassword, encoded_of_chatOf hchat⟩

/-- The data objects of a selection command that was not answered with an error. -/
def acceptedObjects? (context answer : Context) : Option (List Object) :=
  if (Step.mk name (.ofList shapes) context).hasShape mseSetAt &&
      answer.response.any fun response => !response.status.isError then
    (Object.decodeAll context.command.command.data).toOption
  else
    none

/-- The data objects of a selection command that was accepted. -/
def accepted? (turn : Exchange μ W) : Option (List Object) :=
  match turn.input, turn.output with
  | .command context, some answer => acceptedObjects? context answer
  | _, _ => none

@[simp] theorem accepted?_command (before after : Session μ W) (context answer : Context) :
    accepted? ⟨before, .command context, some answer, after⟩ = acceptedObjects? context answer :=
  rfl

/-- The data objects of the last selection command that was accepted. -/
def lastAccepted (past : List (Exchange μ W)) :
    Option (List Object) :=
  (past.filterMap accepted?).getLast?

theorem lastAccepted_concat (past : List (Exchange μ W))
    (turn : Exchange μ W) :
    lastAccepted (past ++ [turn]) = (accepted? turn).or (lastAccepted past) := by
  unfold lastAccepted
  rw [List.filterMap_append]
  cases h : accepted? turn with
  | none => simp [h]
  | some objects => simp [h]

theorem isError_selectionStatus (pace : Pace μ W) (password : PasswordRef)
    (stored : PasswordState) : (pace.selectionStatus password stored).isError = false := by
  unfold selectionStatus
  split
  · rfl
  · split <;> rfl

theorem ofObjects_of_readSelection {step : Step} {selection : Selection}
    (h : readSelection options step = .ok selection) :
    ∃ objects, Object.decodeAll step.command.command.data = .ok objects ∧
      Selection.ofObjects options objects = .ok selection := by
  unfold readSelection at h
  split at h
  · cases h
  · split at h
    · split at h
      · cases h
      · next objects hdecode => exact ⟨objects, hdecode, h⟩
    · cases h

theorem acceptedObjects?_of_hasShape {context answer : Context}
    (hshape : (Step.mk name (.ofList shapes) context).hasShape mseSetAt = false) :
    acceptedObjects? context answer = none := by
  unfold acceptedObjects?
  rw [hshape]
  rfl

/-- A selection that is there after a command was there before it, or the command brought it. -/
theorem selection_of_answers {engine engine' : Driver μ W} {world world' : W}
    {context context' : Context} {selection : Selection}
    (hrests : Rests storage options maxTransitions engine)
    (hanswers : Answers mechanism engine world context engine' world' context')
    (hselection : engine'.data.selection = some selection) :
    (acceptedObjects? context context' = none ∧ engine.data.selection = some selection) ∨
      ∃ objects, acceptedObjects? context context' = some objects ∧
        Selection.ofObjects options objects = .ok selection := by
  have hregistry := hrests.registry
  cases hanswers with
  | untouched =>
    refine .inl ⟨?_, hselection⟩
    unfold acceptedObjects?
    rw [if_neg]
    simp [exhausted, Context.respond, Context.record, Delta.ofResponse, Response.ofStatus,
      show StatusWord.unknownError.isError = true from rfl]
  | unannounced | announced => cases hselection
  | @settled outcome _ hacts hstops =>
    have hstate := hrests.state
    rw [hregistry] at hacts
    dsimp only at hselection
    generalize engine.state = state at hacts hstate
    cases hacts with
    | announced | unannounced => exact absurd rfl hstate
    | refused => cases hselection
    | selected _ hshape hread =>
      cases hselection
      rw [hrests.options] at hread
      obtain ⟨objects, hdecode, hobjects⟩ := ofObjects_of_readSelection hread
      have hdecode : Object.decodeAll context.command.command.data = .ok objects := hdecode
      refine .inr ⟨objects, ?_, hobjects⟩
      unfold acceptedObjects?
      rw [hshape, hdecode, if_pos]
      · rfl
      · simp [Outcome.answered, Note.recordIn, Context.respond, Context.record, Delta.ofResponse,
          Response.ofStatus, isError_selectionStatus]
    | withheld => cases hselection
    | verified hverifies =>
      obtain ⟨_, _, _, _, _, _, _, htaken⟩ := hverifies.taken
      rw [htaken] at hselection
      cases hselection
    | outOfSequence _ hshape => exact .inl ⟨acceptedObjects?_of_hasShape hshape, hselection⟩
    | unmatched _ hshape => exact .inl ⟨acceptedObjects?_of_hasShape hshape, hselection⟩
    | halted hshape => exact .inl ⟨acceptedObjects?_of_hasShape hshape, hselection⟩
    | sentNonce hshape | mappedNonce hshape | agreedOnKey hshape =>
      rw [pace_answerStep] at hselection
      exact .inl ⟨acceptedObjects?_of_hasShape hshape, hselection⟩

/-- What is held as the selection comes from the last selection command that was accepted. -/
def Selected (options : Options) (past : List (Exchange μ W))
    (session : Session μ W) : Prop :=
  ∀ selection, session.engine.data.selection = some selection →
    ∃ objects, lastAccepted past = some objects ∧
      Selection.ofObjects options objects = .ok selection

theorem selected_of_steps {past : List (Exchange μ W)}
    {session session' : Session μ W} {input : Input} {output : Option Context}
    (hrests : Rests storage options maxTransitions session.engine)
    (hselected : Selected options past session)
    (hsteps : Session.Steps mechanism session input output session') :
    Selected options (past ++ [⟨session, input, output, session'⟩]) session' := by
  intro selection hselection
  rw [lastAccepted_concat]
  cases hsteps with
  | reset => cases hselection
  | command hanswers =>
    rcases selection_of_answers hrests hanswers hselection with
      ⟨hnone, hbefore⟩ | ⟨objects, haccepted, hobjects⟩
    · obtain ⟨objects, hlast, hobjects⟩ := hselected selection hbefore
      refine ⟨objects, ?_, hobjects⟩
      rw [accepted?_command, hnone, hlast]
      rfl
    · refine ⟨objects, ?_, hobjects⟩
      rw [accepted?_command, haccepted]
      rfl

/-- What holds between the steps of any session. -/
structure Steady (storage : Storage W) (options : Options) (maxTransitions : Nat)
    (past : List (Exchange μ W)) (session : Session μ W) : Prop where
  rests : Rests storage options maxTransitions session.engine
  selected : Selected options past session

theorem steady_start (mechanism : Mechanism μ) (storage : Storage W) (data : μ) (options : Options)
    (maxTransitions : Nat) (world : W) :
    Steady storage options maxTransitions []
      (Session.start mechanism storage data options maxTransitions world) :=
  ⟨rests_start mechanism storage data options maxTransitions world, nofun⟩

theorem steady_of_steps {past : List (Exchange μ W)}
    {session session' : Session μ W} {input : Input} {output : Option Context}
    (hsteady : Steady storage options maxTransitions past session)
    (hsteps : Session.Steps mechanism session input output session') :
    Steady storage options maxTransitions (past ++ [⟨session, input, output, session'⟩]) session' :=
  ⟨rests_of_steps hsteady.rests hsteps, selected_of_steps hsteady.rests hsteady.selected hsteps⟩

end SmartCard.Pace
