import SmartCard.Proofs.Pace.Announcement
import SmartCard.Proofs.Pace.Objection
import SmartCard.Proofs.Pace.Resting

/-!
# Selections in a session

Whatever came before it, a selection command forgets the authentication that is under way, and its
answer depends on nothing of that but on whether the access number was used with success since the
last reset.
-/

namespace SmartCard.Pace

variable {μ V W : Type}

/-! ### Success with the access number -/

/-- A token was verified in a turn for the access number, and no write failed. -/
structure Succeeds (past : List (Exchange (μ × List Call) (W × List Write)))
    (turn : Exchange (μ × List Call) (W × List Write)) : Prop where
  verified : ∃ token authentication,
    .mutualAuthenticate token (.ok (some authentication)) ∈ made turn
  restored : ∀ write ∈ written turn, write.result.toBool = true
  selected : ∃ objects, lastAccepted past = some objects ∧
    content? passwordTag objects = some [PasswordRef.can.reference]

/-- The access number was used with success since the last reset. -/
def CanSucceeded (past : List (Exchange (μ × List Call) (W × List Write))) : Prop :=
  ∃ earlier turn later, past = earlier ++ turn :: later ∧
    (∀ other ∈ later, other.input ≠ .reset) ∧ Succeeds earlier turn

theorem canSucceeded_concat_iff {past : List (Exchange (μ × List Call) (W × List Write))}
    {turn : Exchange (μ × List Call) (W × List Write)} :
    CanSucceeded (past ++ [turn]) ↔
      Succeeds past turn ∨ turn.input ≠ .reset ∧ CanSucceeded past := by
  constructor
  · rintro ⟨earlier, success, later, hsplit, hlater, hsucceeds⟩
    rcases List.eq_nil_or_concat later with rfl | ⟨between, last, rfl⟩
    · obtain ⟨rfl, hlast⟩ := List.append_inj' hsplit rfl
      cases hlast
      exact .inl hsucceeds
    · have hsplit : past ++ [turn] = (earlier ++ success :: between) ++ [last] := by
        simpa using hsplit
      obtain ⟨rfl, hlast⟩ := List.append_inj' hsplit rfl
      cases hlast
      refine .inr ⟨hlater turn (by simp), earlier, success, between, rfl, ?_, hsucceeds⟩
      intro other hother
      exact hlater other (by simp [hother])
  · rintro (hsucceeds | ⟨hinput, earlier, success, later, rfl, hlater, hsucceeds⟩)
    · exact ⟨past, turn, [], rfl, by simp, hsucceeds⟩
    · refine ⟨earlier, success, later ++ [turn], by simp, ?_, hsucceeds⟩
      intro other hother
      rcases List.mem_append.mp hother with hother | hother
      · exact hlater other hother
      · rw [List.mem_singleton.mp hother]
        exact hinput

variable {mechanism : Mechanism μ} {storage : Storage W} {options : Options} {maxTransitions : Nat}

/-- A counter that could be restored, if that was needed at all, was written without a failure. -/
theorem written_of_restored {pace : Pace V (W × List Write)} {password : PasswordRef}
    {stored : PasswordState} {world world' : W × List Write}
    (hstorage : pace.storage = some storage.recorded)
    (h : pace.restoreCounter password stored world = (.ok (), world')) :
    ∃ writes, world'.2 = world.2 ++ writes ∧ ∀ write ∈ writes, write.result.toBool = true := by
  rcases written_of_restoreCounter hstorage h with ⟨rfl, _⟩ | ⟨counter, hwritten⟩
  · exact ⟨[], (List.append_nil _).symm, nofun⟩
  · refine ⟨_, hwritten, ?_⟩
    intro write hwrite
    rw [List.mem_singleton.mp hwrite]
    rfl

variable {past : List (Exchange (μ × List Call) (W × List Write))}
  {session session' : Session (μ × List Call) (W × List Write)} {input : Input}
  {output : Option Context}

/-- An accepted token is a success with the access number if that is selected. -/
theorem succeeds_iff_of_grants {context : Context} {token : Bytes} {selection : Selection}
    {stored : PasswordState} {authentication : Authentication} {data : μ × List Call}
    {read : W × List Write}
    (hsteady : Steady storage.recorded options maxTransitions past session)
    (hgrants : Grants mechanism.recorded session.engine.data session.world
      ⟨name, session.engine.registry, context⟩ token selection stored authentication data read
      session'.world)
    (hdata : session'.engine.data.mechanism = data) :
    Succeeds past ⟨session, input, output, session'⟩ ↔ selection.password = .can := by
  obtain ⟨hpresents, hcall, hrestored⟩ := hgrants
  obtain ⟨objects, hlast, hobjects⟩ := hsteady.selected selection hpresents.selected
  obtain ⟨_, _, hreference, _⟩ := content_of_ofObjects hobjects
  constructor
  · rintro ⟨_, _, other, hother, hcan⟩
    rw [hlast] at hother
    cases hother
    exact password_unique hreference hcan
  · intro hcan
    have hcalls : session'.engine.data.calls = session.engine.data.calls ++
        [.mutualAuthenticate token (.ok (some authentication))] := by
      rw [calls, hdata]
      exact calls_of_mutualAuthenticate hcall
    obtain ⟨_, hread⟩ := readPassword_recorded hsteady.rests.storage hpresents.read
    obtain ⟨writes, hwrites, hsuccess⟩ := written_of_restored hsteady.rests.storage hrestored
    rw [hread] at hwrites
    constructor
    case verified =>
      refine ⟨token, authentication, ?_⟩
      rw [made_eq hcalls]
      exact List.mem_singleton_self _
    case restored =>
      rw [written_eq hwrites]
      exact hsuccess
    case selected =>
      rw [hcan] at hreference
      exact ⟨objects, hlast, hreference⟩

/-- What lets a suspended identification number be used is a success with the access number. -/
def Tracks (past : List (Exchange (μ × List Call) (W × List Write)))
    (session : Session (μ × List Call) (W × List Write)) : Prop :=
  session.engine.data.canAuthenticated = true ↔ CanSucceeded past

theorem tracks_of_steps (hsteady : Steady storage.recorded options maxTransitions past session)
    (htracks : Tracks past session)
    (hsteps : Session.Steps mechanism.recorded session input output session') :
    Tracks (past ++ [⟨session, input, output, session'⟩]) session' := by
  unfold Tracks at htracks ⊢
  rw [canSucceeded_concat_iff]
  cases hsteps with
  | reset =>
    refine iff_of_false nofun ?_
    rintro (⟨⟨token, authentication, hmem⟩, _, _⟩ | ⟨hinput, _⟩)
    · have hmade : made ⟨session, .reset, none, ⟨{ session.engine with
          data := session.engine.data.endSession mechanism.recorded, state := .idle },
          session.world⟩⟩ = [.reset] := made_eq rfl
      rw [hmade] at hmem
      simp at hmem
    · exact hinput rfl
  | @command context context' engine' world' hanswers =>
    have hcommand : Input.command context ≠ .reset := nofun
    rw [← htracks, and_iff_right hcommand]
    cases hanswers with
    | untouched =>
      refine (or_iff_right ?_).symm
      rintro ⟨⟨token, authentication, hmem⟩, _, _⟩
      rw [made_eq (List.append_nil _).symm] at hmem
      cases hmem
    | settled _ hacts hstops =>
      rw [canAuthenticated_of_acts hacts hstops]
      refine (or_iff_right ?_).symm
      rintro ⟨⟨token, authentication, hmem⟩, hrestored, _⟩
      -- the token was verified, but then a write failed
      obtain ⟨write, hwritten, hfailed⟩ :=
        unrestored_of_acts hsteady.rests.storage hacts hstops hmem
      rw [written_eq hwritten] at hrestored
      rw [hrestored write (List.mem_singleton_self write)] at hfailed
      cases hfailed
    | unannounced _ _ hgrants | announced _ _ hgrants =>
      rw [succeeds_iff_of_grants hsteady hgrants rfl]
      simp [granted]

/-! ### The turn of a selection -/

theorem Answered.unique {request : Request W} {status other : StatusWord}
    (h : Answered request status) (hother : Answered request other) : other = status := by
  cases h with
  | @objected first hfirst =>
    cases hother with
    | @objected second hsecond =>
      have hplace : second.place = first.place := by
        apply Nat.le_antisymm
        · exact Nat.le_of_not_lt fun hlt => hsecond.earlier _ hlt hfirst.stands
        · exact Nat.le_of_not_lt fun hlt => hfirst.earlier _ hlt hsecond.stands
      rw [Objection.place_injective hplace]
    | unobjected hnone => exact absurd hfirst.stands (hnone _)
  | unobjected hnone =>
    cases hother with
    | objected hfirst => exact absurd hfirst.stands (hnone _)
    | unobjected => rfl

/-- The record beside the card state is not looked at. -/
theorem stands_recorded_iff {handle : Handle} {world : W × List Write} {resumed : Prop}
    {objection : Objection} :
    Stands ⟨handle, options, storage.recorded, world, resumed⟩ objection ↔
      Stands ⟨handle, options, storage, world.1, resumed⟩ objection := by
  constructor
  · intro h
    cases h <;> constructor <;> assumption
  · intro h
    cases h <;> constructor <;> assumption

theorem Answered.of_recorded {handle : Handle} {world : W × List Write} {resumed : Prop}
    {status : StatusWord}
    (h : Answered ⟨handle, options, storage.recorded, world, resumed⟩ status) :
    Answered ⟨handle, options, storage, world.1, resumed⟩ status := by
  cases h with
  | objected hfirst =>
    refine .objected ⟨stands_recorded_iff.mp hfirst.stands, ?_⟩
    intro other hplace hstands
    exact hfirst.earlier other hplace (stands_recorded_iff.mpr hstands)
  | unobjected hnone =>
    refine .unobjected ?_
    intro objection hstands
    exact hnone objection (stands_recorded_iff.mpr hstands)

/-- A command that starts an authentication over, whatever data it has. -/
structure IsSelection (command : Command) : Prop where
  ins : command.ins = 0x22
  p1 : command.p1 = 0xC1
  p2 : command.p2 = 0xA4

/-- What a turn with a selection command comes to. The mechanism is reset and not called otherwise,
and the selection is kept unless the answer is an error. -/
structure Selects (mechanism : Mechanism μ) (request : Request W)
    (turn : Exchange (μ × List Call) (W × List Write)) (status : StatusWord) : Prop where
  answer : Answered request status
  only : ∀ other, Answered request other → other = status
  response : ∃ answer, turn.output = some answer ∧ answer.response = some (.ofStatus status)
  made : made turn = [.reset]
  mechanism : turn.after.engine.data.mechanism.1 =
    mechanism.reset turn.before.engine.data.mechanism.1
  state : turn.after.engine.state =
    if status.isError then .idle else .authenticating .setAtProcessed
  selection : turn.after.engine.data.selection = none ↔ status.isError = true
  established : turn.after.engine.data.established = none

/-- No state of an engine that rests does anything else with a selection command. -/
theorem act_of_isSelection {engine : Driver μ W} {handle : Handle} (mechanism : Mechanism μ)
    (world : W) (hrests : Rests storage options maxTransitions engine)
    (hselection : IsSelection handle.command) :
    engine.data.act mechanism world ⟨name, engine.registry, .start handle⟩ engine.state =
      engine.data.select mechanism world ⟨name, engine.registry, .start handle⟩ := by
  have hshape : (Step.mk name engine.registry (.start handle)).hasShape mseSetAt = true := by
    rw [hasShape_eq hrests.registry get?_mseSetAt]
    exact isMatch_anySelection_iff.mpr ⟨hselection.ins, hselection.p1, hselection.p2⟩
  cases hstate : engine.state with
  | established => exact absurd hstate hrests.state
  | idle | authenticating => rw [act, if_pos hshape]

theorem selects_of_step {handle : Handle} (hlimit : 1 ≤ maxTransitions)
    (hrests : Rests storage.recorded options maxTransitions session.engine)
    (htracks : Tracks past session) (hselection : IsSelection handle.command)
    (hstep : session.step mechanism.recorded (.command (.start handle)) = .ok (output, session')) :
    ∃ status, Selects mechanism ⟨handle, options, storage, session.world.1, CanSucceeded past⟩
      ⟨session, .command (.start handle), output, session'⟩ status := by
  obtain ⟨engine, world⟩ := session
  let request : Request (W × List Write) :=
    ⟨handle, options, storage.recorded, world, CanSucceeded past⟩
  have hstorage : engine.data.storage = some request.storage := hrests.storage
  have hcommand : (Step.mk name engine.registry (.start handle)).command = request.command := rfl
  have hact := act_of_isSelection mechanism.recorded world hrests hselection
  obtain ⟨status, hrestarts⟩ := select_restarts mechanism.recorded hstorage hrests.options htracks
    hrests.registry hcommand
  have hrestarts : Restarts mechanism.recorded request engine.data (engine.data.act
      mechanism.recorded world ⟨name, engine.registry, .start handle⟩ engine.state) status := by
    rw [hact]
    exact hrestarts
  have hpositive : 0 < engine.maxTransitions := by
    rw [hrests.limit]
    exact hlimit
  have hprocess := process_of_stops mechanism.recorded engine world (.start handle) hpositive
    hrestarts.stops
  rw [Session.step, hprocess] at hstep
  cases hstep
  obtain ⟨selection, hpace, hkept⟩ := hrestarts.pace
  have hanswer := hrestarts.answer.of_recorded
  refine ⟨status, ?_⟩
  constructor
  case answer => exact hanswer
  case only => exact fun other hother => hanswer.unique hother
  case response => exact ⟨_, rfl, hrestarts.response _⟩
  case made =>
    apply made_eq
    dsimp only
    rw [hpace]
    rfl
  case mechanism =>
    dsimp only
    rw [hpace]
    rfl
  case state => exact hrestarts.state _ _
  case selection =>
    dsimp only
    rw [hpace]
    exact hkept
  case established =>
    dsimp only
    rw [hpace]
    rfl

/-- What a selection command depends on. -/
structure Selecting (storage : Storage W) (options : Options) (maxTransitions : Nat)
    (past : List (Exchange (μ × List Call) (W × List Write)))
    (session : Session (μ × List Call) (W × List Write)) : Prop where
  steady : Steady storage.recorded options maxTransitions past session
  tracks : Tracks past session

theorem selecting_start (mechanism : Mechanism μ) (storage : Storage W) (data : μ)
    (options : Options) (maxTransitions : Nat) (world : W) :
    Selecting storage options maxTransitions []
      (.recorded mechanism storage data options maxTransitions world) := by
  refine ⟨steady_start .., iff_of_false nofun ?_⟩
  rintro ⟨earlier, turn, later, hsplit, _⟩
  simp at hsplit

theorem selecting_of_steps (hselecting : Selecting storage options maxTransitions past session)
    (hsteps : Session.Steps mechanism.recorded session input output session') :
    Selecting storage options maxTransitions (past ++ [⟨session, input, output, session'⟩])
      session' :=
  ⟨steady_of_steps hselecting.steady hsteps,
    tracks_of_steps hselecting.steady hselecting.tracks hsteps⟩

/-- Whatever commands and resets there were, a selection command gets the status word of the first
objection to it, and success if there is none, and an authentication starts over. -/
theorem selects_of_run (mechanism : Mechanism μ) (storage : Storage W) (data : μ)
    (options : Options) (maxTransitions : Nat) (world : W) (inputs : List Input)
    (hlimit : 1 ≤ maxTransitions) :
    ∃ turns, run (Session.step mechanism.recorded)
        (.recorded mechanism storage data options maxTransitions world) inputs = .ok turns ∧
      ∀ past turn future handle, turns = past ++ turn :: future →
        turn.input = .command (.start handle) → IsSelection handle.command →
        ∃ status, Selects mechanism
          ⟨handle, options, storage, turn.before.world.1, CanSucceeded past⟩ turn status := by
  have hstart := selecting_start mechanism storage data options maxTransitions world
  obtain ⟨turns, hrun, hturns⟩ := Session.exists_turns hstart
    (fun _ _ _ _ _ hselecting hsteps => selecting_of_steps hselecting hsteps) inputs
  refine ⟨turns, hrun, ?_⟩
  rintro past ⟨before, input, output, after⟩ future handle hsplit rfl hselection
  obtain ⟨⟨hsteady, htracks⟩, hturn⟩ := hturns past _ future hsplit
  exact selects_of_step hlimit hsteady.rests htracks hselection hturn

/-- Selects a password. -/
def selecting (password : PasswordRef) : Handle :=
  .root (.received 0) ⟨0x00, 0x22, 0xC1, 0xA4, [0x80, 0x0A, 0x04, 0x00, 0x7F, 0x00, 0x07, 0x02,
    0x02, 0x04, 0x02, 0x02, 0x83, 0x01, password.reference], none, false⟩

/-- A step of an authentication with its data objects. -/
def stepping (cla : UInt8) (objects : Bytes) : Handle :=
  .root (.received 0) ⟨cla, 0x86, 0x00, 0x00, 0x7C :: UInt8.ofNat objects.length :: objects,
    some 0x100, false⟩

/-- The identification number is selected and the first step made, then there is an authentication
with the access number. -/
def resumption : List Input :=
  [selecting .pin, stepping 0x10 [], selecting .can, stepping 0x10 [],
    stepping 0x10 [0x81, 0x01, 0xAA], stepping 0x10 [0x83, 0x01, 0xBB],
    stepping 0x00 [0x85, 0x01, 0xCC]].map fun handle => .command (.start handle)

/-- A card whose identification number has one attempt left. -/
def lastAttempt : CardMemory :=
  (CardMemory.empty.withPassword .pin (.fresh [0x31, 0x32] (some 1))).withPassword .can
    (.fresh [0x33, 0x34] none)

theorem selects_of_run_resumed :
    1 ≤ 2 ∧ ∃ past turn, run (Session.step trusting.recorded)
        (.recorded trusting .memory () .standard 2 lastAttempt)
        (resumption ++ [.command (.start (selecting .pin))]) = .ok (past ++ [turn]) ∧
      Selects trusting ⟨selecting .pin, .standard, .memory, turn.before.world.1,
        CanSucceeded past⟩ turn ⟨0x90, 0x00⟩ := by
  have hlimit : 1 ≤ 2 := by decide
  have hlast : (run (Session.step trusting.recorded)
      (.recorded trusting .memory () .standard 2 lastAttempt)
      (resumption ++ [.command (.start (selecting .pin))])).toOption.bind (fun turns =>
        turns.getLast?.bind fun turn => (turn.output.bind (·.response)).map (·.status)) =
      some ⟨0x90, 0x00⟩ := by
    decide +kernel
  obtain ⟨turns, hrun, hselects⟩ := selects_of_run trusting .memory () .standard 2 lastAttempt
    (resumption ++ [.command (.start (selecting .pin))]) hlimit
  obtain ⟨past, rest, rfl, _, hrest⟩ := List.map_eq_append_iff.mp (input_of_run hrun)
  obtain ⟨turn, rfl, hinput⟩ := List.map_eq_singleton_iff.mp hrest
  obtain ⟨status, hselects⟩ := hselects past turn [] (selecting .pin) rfl hinput ⟨rfl, rfl, rfl⟩
  obtain ⟨answer, houtput, hresponse⟩ := hselects.response
  rw [hrun] at hlast
  have hstatus : status = ⟨0x90, 0x00⟩ := by
    simpa [Except.toOption, houtput, hresponse, Response.ofStatus] using hlast
  rw [hstatus] at hselects
  exact ⟨hlimit, past, turn, hrun, hselects⟩

end SmartCard.Pace
