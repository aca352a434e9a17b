import SmartCard.CardState.Trial
import SmartCard.Proofs.Pace.Selecting
import SmartCard.Proofs.Pace.Sequence

/-!
# The last step of an authentication

What the token of a terminal comes to. The checks of the password are made before the mechanism is
asked, and an attempt that is used up is stored before the answer says so: if it could not be
stored, then neither the answer nor an event tells that the token was wrong.
-/

namespace SmartCard.Pace

variable {μ W : Type}

/-! ### What a turn comes to -/

/-- The authentication data of a command holds these data objects. -/
def Carries (handle : Handle) (inner : List Object) : Prop :=
  Object.decodeAll handle.command.data = .ok [.constructed authenticationDataTag inner]

/-- A turn that is refused before the mechanism is asked, and that writes nothing. -/
structure Withholds (turn : Exchange (μ × List Call) (W × List Write)) (status : StatusWord) :
    Prop where
  refuses : Refuses turn status
  mechanism : turn.after.engine.data.mechanism = turn.before.engine.data.mechanism
  written : written turn = []

/-- What becomes of a token that the mechanism gave `result` for. The password was read as `stored`,
which left the card state as `read`. -/
inductive Judges (storage : Storage W) (password : PasswordRef) (stored : PasswordState) (read : W)
    (turn : Exchange (μ × List Call) (W × List Write)) (answer : Context) :
    Except Fault (Option Authentication) → Prop
  | failed {fault : Fault} (hresponse : answer.response = some (.ofStatus fault.status))
      (hwritten : written turn = []) :
      Judges storage password stored read turn answer (.error fault)
  /-- The token is wrong, and attempts are not counted. -/
  | uncounted (hcounter : stored.retryCounter = none)
      (hresponse : answer.response = some (.ofStatus ⟨0x63, 0x00⟩))
      (hannounced : answer.announced = [.event (.authenticationFailed password)])
      (hwritten : written turn = []) :
      Judges storage password stored read turn answer (.ok none)
  | counted {counter : UInt8} (hcounter : stored.retryCounter = some counter)
      (hstored : storage.setRetryCounter password (counter - 1) read =
        (.ok (), turn.after.world.1))
      (hresponse : answer.response =
        some (.ofStatus ⟨0x63, UInt8.ofNat (0xC0 + min (counter.toNat - 1) 15)⟩))
      (hannounced : answer.announced = [.event (.authenticationFailed password)])
      (hwritten : written turn = [⟨password, counter - 1, .ok ()⟩]) :
      Judges storage password stored read turn answer (.ok none)
  /-- The token is wrong, but the attempt that it cost could not be stored. -/
  | unstored {counter : UInt8} {fault : Fault} (hcounter : stored.retryCounter = some counter)
      (hstored : storage.setRetryCounter password (counter - 1) read =
        (.error fault, turn.after.world.1))
      (hresponse : answer.response = some (.ofStatus fault.status))
      (hannounced : answer.announced = [])
      (hwritten : written turn = [⟨password, counter - 1, .error fault⟩]) :
      Judges storage password stored read turn answer (.ok none)
  /-- The token is right, and there is no counter to be restored. -/
  | kept {authentication : Authentication}
      (hcounters : ∀ counter initial, stored.retryCounter = some counter →
        stored.initialRetryCounter = some initial → counter = initial)
      (hwritten : written turn = []) :
      Judges storage password stored read turn answer (.ok (some authentication))
  | restored {authentication : Authentication} {counter initial : UInt8}
      {result : Except Fault Unit} (hcounter : stored.retryCounter = some counter)
      (hinitial : stored.initialRetryCounter = some initial) (hdifferent : counter ≠ initial)
      (hstored : storage.setRetryCounter password initial read = (result, turn.after.world.1))
      (hwritten : written turn = [⟨password, initial, result⟩]) :
      Judges storage password stored read turn answer (.ok (some authentication))

/-- What the last step of an authentication with `password` comes to. -/
inductive Concludes (mechanism : Mechanism μ) (storage : Storage W)
    (past : List (Exchange (μ × List Call) (W × List Write)))
    (turn : Exchange (μ × List Call) (W × List Write)) (handle : Handle) (password : PasswordRef) :
    Prop
  | empty (hdata : Carries handle []) (hwithholds : Withholds turn ⟨0x6A, 0x80⟩) :
      Concludes mechanism storage past turn handle password
  | unset {token : Bytes} (hdata : Carries handle [.primitive terminalTokenTag token])
      (hstored : (storage.password password turn.before.world.1).1 = none)
      (hwithholds : Withholds turn ⟨0x6A, 0x88⟩) :
      Concludes mechanism storage past turn handle password
  | blocked {token : Bytes} {stored : PasswordState}
      (hdata : Carries handle [.primitive terminalTokenTag token])
      (hstored : (storage.password password turn.before.world.1).1 = some stored)
      (hcounter : stored.retryCounter = some 0) (hwithholds : Withholds turn ⟨0x69, 0x83⟩) :
      Concludes mechanism storage past turn handle password
  | suspended {token : Bytes} {stored : PasswordState}
      (hdata : Carries handle [.primitive terminalTokenTag token])
      (hstored : (storage.password password turn.before.world.1).1 = some stored)
      (hpin : password = .pin) (hcounter : stored.retryCounter = some 1)
      (hcan : ¬ CanSucceeded past) (hwithholds : Withholds turn ⟨0x69, 0x85⟩) :
      Concludes mechanism storage past turn handle password
  | judged {token : Bytes} {stored : PasswordState} {read : W} {answer : Context}
      {result : Except Fault (Option Authentication)}
      (hdata : Carries handle [.primitive terminalTokenTag token])
      (hstored : storage.password password turn.before.world.1 = (some stored, read))
      (hunblocked : stored.retryCounter ≠ some 0)
      (hresumed : password = .pin → stored.retryCounter = some 1 → CanSucceeded past)
      (hcall : (mechanism.mutualAuthenticate token turn.before.engine.data.mechanism.1).1 = result)
      (hmade : made turn = [.mutualAuthenticate token result]) (houtput : turn.output = some answer)
      (hjudges : Judges storage password stored read turn answer result) :
      Concludes mechanism storage past turn handle password

variable {storage : Storage W} {password : PasswordRef}
  {past : List (Exchange (μ × List Call) (W × List Write))}
  {turn : Exchange (μ × List Call) (W × List Write)} {handle : Handle} {answer : Context}

theorem Judges.written_le {stored : PasswordState} {read : W}
    {result : Except Fault (Option Authentication)}
    (h : Judges storage password stored read turn answer result) :
    (written turn).length ≤ 1 ∧ ∀ write ∈ written turn, write.password = password := by
  cases h with
  | failed _ hwritten | uncounted _ _ _ hwritten | kept _ hwritten => simp [hwritten]
  | counted _ _ _ _ hwritten | unstored _ _ _ _ hwritten | restored _ _ _ _ hwritten =>
    simp [hwritten]

theorem Concludes.written_le {mechanism : Mechanism μ}
    (h : Concludes mechanism storage past turn handle password) :
    (written turn).length ≤ 1 ∧ ∀ write ∈ written turn, write.password = password := by
  cases h with
  | empty _ hwithholds | unset _ _ hwithholds | blocked _ _ _ hwithholds
  | suspended _ _ _ _ _ hwithholds => simp [hwithholds.written]
  | judged _ _ _ _ _ _ _ hjudges => exact hjudges.written_le

/-! ### The token in the command -/

/-- What fits the last step has empty authentication data, or the token of the terminal. -/
theorem carries_of_fits (hfits : Fits handle .keyAgreed) :
    Carries handle [] ∨ ∃ token, Carries handle [.primitive terminalTokenTag token] := by
  obtain ⟨_, _, _, _, _, object, hobject, htemplate⟩ :=
    (isMatch_shape_iff _).mp (fits_iff.mp hfits)
  unfold Carries
  obtain ⟨content, rfl, rfl | ⟨inner, token, hinner, rfl⟩⟩ := htemplate.eq_constructed hobject
  · exact .inl hobject
  · obtain rfl : terminalTokenTag = inner := Option.some.inj hinner
    exact .inr ⟨token, hobject⟩

/-! ### What becomes of a token -/

section

variable {mechanism : Mechanism μ} {session session' : Session (μ × List Call) (W × List Write)}
  {output : Option Context} {pace : Pace (μ × List Call) (W × List Write)} {read : W × List Write}
  {stored : PasswordState} {selection : Selection} {authentication : Authentication}

theorem rejectionStatus_of_counter {counter : UInt8} (hcounter : stored.retryCounter = some counter)
    (hpositive : counter ≠ 0) :
    rejectionStatus stored = ⟨0x63, UInt8.ofNat (0xC0 + min (counter.toNat - 1) 15)⟩ := by
  have hone : 1 ≤ counter := by
    rw [UInt8.le_iff_toNat_le]
    exact Nat.one_le_iff_ne_zero.mpr fun hzero => hpositive (UInt8.toNat_inj.mp hzero)
  have hleft : (counter - 1).toNat = counter.toNat - 1 := UInt8.toNat_sub_of_le counter 1 hone
  rw [rejectionStatus, hcounter]
  dsimp only
  rw [if_neg hpositive, StatusWord.retryCounter, hleft]

theorem isBlocked_iff : stored.isBlocked = true ↔ stored.retryCounter = some 0 :=
  decide_eq_true_iff

section

variable (hlimit : 0 < session.engine.maxTransitions)
  (hstep : session.step mechanism.recorded (.command (.start handle)) = .ok (output, session'))

include hlimit hstep

theorem withholds_of_fail {fault : Fault}
    (hact : session.outcome mechanism.recorded handle = .fail fault pace read)
    (hmechanism : pace.mechanism = session.engine.data.mechanism)
    (hread : read.2 = session.world.2) (herror : fault.status.isError = true) :
    Withholds ⟨session, .command (.start handle), output, session'⟩ fault.status := by
  have hcalls : pace.calls = session.engine.data.calls := congrArg Prod.snd hmechanism
  have hrefuses := refuses_of_fail hlimit hact hcalls herror hstep
  obtain ⟨rfl, rfl⟩ := step_of_stops hlimit hact rfl hstep
  exact ⟨hrefuses, hmechanism, written_eq (hread.trans (List.append_nil _).symm)⟩

/-- Whether the keys are announced or not, the card state is the one that restoring the counter
left. -/
theorem world_of_accept
    (hact : session.outcome mechanism.recorded handle =
      pace.accept read selection stored authentication) :
    (∃ answer, output = some answer) ∧ session'.engine.data.mechanism = pace.mechanism ∧
      session'.world = (pace.restoreCounter selection.password stored read).2 := by
  unfold accept at hact
  rcases hrestored : pace.restoreCounter selection.password stored read with ⟨fault | _, world⟩
  · rw [hrestored] at hact
    obtain ⟨rfl, rfl⟩ := step_of_stops hlimit hact rfl hstep
    exact ⟨⟨_, rfl⟩, rfl, rfl⟩
  · rw [hrestored] at hact
    obtain ⟨engine', context', hprocess, hmechanism⟩ :=
      process_of_established mechanism.recorded session.engine session.world (.start handle) hlimit
        hact
    rw [Session.step, hprocess] at hstep
    cases hstep
    exact ⟨⟨_, rfl⟩, hmechanism, rfl⟩

variable (hread : read.2 = session.world.2)

include hread

theorem judges_of_fail {fault : Fault}
    (hact : session.outcome mechanism.recorded handle = .fail fault pace read) :
    ∃ answer, output = some answer ∧ session'.engine.data.mechanism = pace.mechanism ∧
      Judges storage password stored read.1
        ⟨session, .command (.start handle), output, session'⟩ answer (.error fault) := by
  obtain ⟨rfl, rfl⟩ := step_of_stops hlimit hact rfl hstep
  refine ⟨_, rfl, rfl, .failed rfl (written_eq ?_)⟩
  exact hread.trans (List.append_nil _).symm

variable (hstorage : pace.storage = some storage.recorded)

include hstorage

theorem judges_of_reject (hunblocked : stored.retryCounter ≠ some 0)
    (hact : session.outcome mechanism.recorded handle = pace.reject read password stored) :
    ∃ answer, output = some answer ∧ session'.engine.data.mechanism = pace.mechanism ∧
      Judges storage password stored read.1
        ⟨session, .command (.start handle), output, session'⟩ answer (.ok none) := by
  rw [reject_eq, spendAttempt] at hact
  cases hcounter : stored.retryCounter with
  | none =>
    rw [hcounter] at hact
    obtain ⟨rfl, rfl⟩ := step_of_stops hlimit hact rfl hstep
    have hstatus : rejectionStatus stored = ⟨0x63, 0x00⟩ := by
      rw [rejectionStatus, hcounter]
      rfl
    refine ⟨_, rfl, rfl, .uncounted hcounter ?_ ?_ (written_eq ?_)⟩
    · rw [← hstatus]
      rfl
    · simp [Outcome.answered, Note.recordIn, Context.start]
    · exact hread.trans (List.append_nil _).symm
  | some counter =>
    have hpositive : counter ≠ 0 := by
      rintro rfl
      exact hunblocked hcounter
    rw [hcounter] at hact
    dsimp only at hact
    rw [if_neg hpositive, writeCounter_recorded hstorage] at hact
    -- the write comes before the answer, so that its fault is all that is answered
    rcases hstored : storage.setRetryCounter password (counter - 1) read.1 with ⟨fault | _, world⟩
    · rw [hstored] at hact
      obtain ⟨rfl, rfl⟩ := step_of_stops hlimit hact rfl hstep
      refine ⟨_, rfl, rfl, .unstored hcounter hstored rfl ?_ (written_eq ?_)⟩
      · simp [Outcome.answered, Outcome.fail, Context.start]
      · exact congrArg (· ++ _) hread
    · rw [hstored] at hact
      obtain ⟨rfl, rfl⟩ := step_of_stops hlimit hact rfl hstep
      refine ⟨_, rfl, rfl, .counted hcounter hstored ?_ ?_ (written_eq ?_)⟩
      · rw [← rejectionStatus_of_counter hcounter hpositive]
        rfl
      · simp [Outcome.answered, Note.recordIn, Context.start]
      · exact congrArg (· ++ _) hread

theorem judges_of_accept
    (hact : session.outcome mechanism.recorded handle =
      pace.accept read selection stored authentication) :
    ∃ answer, output = some answer ∧ session'.engine.data.mechanism = pace.mechanism ∧
      Judges storage selection.password stored read.1
        ⟨session, .command (.start handle), output, session'⟩ answer
        (.ok (some authentication)) := by
  obtain ⟨⟨answer, houtput⟩, hmechanism, hworld⟩ := world_of_accept hlimit hstep hact
  refine ⟨answer, houtput, hmechanism, ?_⟩
  rcases restoreCounter_recorded hstorage selection.password stored read with
    ⟨hcounters, hrestored⟩ | ⟨counter, initial, hcounter, hinitial, hdifferent, hrestored⟩
  · rw [hrestored] at hworld
    refine .kept hcounters (written_eq ?_)
    rw [hworld]
    exact hread.trans (List.append_nil _).symm
  · rcases hstored : storage.setRetryCounter selection.password initial read.1 with ⟨result, world⟩
    rw [hrestored, hstored] at hworld
    have hafter : storage.setRetryCounter selection.password initial read.1 =
        (result, session'.world.1) := by
      rw [hworld, hstored]
    have hwritten : session'.world.2 =
        session.world.2 ++ [⟨selection.password, initial, result⟩] := by
      rw [hworld, ← hread]
    exact .restored hcounter hinitial hdifferent hafter (written_eq hwritten)

end

/-- The last step of an authentication comes when it is due. -/
structure Due (mechanism : Mechanism μ) (storage : Storage W)
    (session : Session (μ × List Call) (W × List Write)) (handle : Handle) (selection : Selection) :
    Prop where
  limit : 0 < session.engine.maxTransitions
  storage : session.engine.data.storage = some storage.recorded
  selection : session.engine.data.selection = some selection
  act : session.outcome mechanism.recorded handle =
    session.engine.data.mutualAuthenticate mechanism.recorded session.world
      ⟨name, session.engine.registry, .start handle⟩

section

variable (hdue : Due mechanism storage session handle selection)
  (hstep : session.step mechanism.recorded (.command (.start handle)) = .ok (output, session'))

include hdue hstep

theorem withholds_of_empty (hempty : Carries handle []) :
    Withholds ⟨session, .command (.start handle), output, session'⟩ ⟨0x6A, 0x80⟩ := by
  let step := Step.mk name session.engine.registry (.start handle)
  have hobject : Object.decodeAll step.command.command.data =
      .ok [.constructed authenticationDataTag []] := hempty
  obtain ⟨fault, hmissing, hstatus⟩ :=
    authenticationData_of_children_eq_nil hobject rfl rfl terminalTokenTag
  have hact := hdue.act
  rw [mutualAuthenticate, hmissing] at hact
  rw [← hstatus]
  refine withholds_of_fail hdue.limit hstep hact rfl rfl ?_
  rw [hstatus]
  rfl

theorem judges_of_call {token : Bytes} {result : Except Fault (Option Authentication)}
    {data : μ × List Call} (hunblocked : stored.retryCounter ≠ some 0)
    (hcall : mechanism.recorded.mutualAuthenticate token session.engine.data.mechanism =
      (result, data))
    (hact : session.outcome mechanism.recorded handle =
      verify mechanism.recorded { session.engine.data with selection := none } read token selection
        stored)
    (hread : read.2 = session.world.2) :
    ∃ answer, output = some answer ∧ session'.engine.data.mechanism = data ∧
      Judges storage selection.password stored read.1
        ⟨session, .command (.start handle), output, session'⟩ answer result := by
  have hstorage : ({ session.engine.data with selection := none, mechanism := data } :
      Pace (μ × List Call) (W × List Write)).storage = some storage.recorded := hdue.storage
  rw [verify, hcall] at hact
  rcases result with fault | _ | authentication
  · exact judges_of_fail hdue.limit hstep hread hact
  · exact judges_of_reject hdue.limit hstep hread hstorage hunblocked hact
  · exact judges_of_accept hdue.limit hstep hread hstorage hact

theorem concludes_of_token {token : Bytes} (htracks : Tracks past session)
    (hdata : Carries handle [.primitive terminalTokenTag token]) :
    Concludes mechanism storage past ⟨session, .command (.start handle), output, session'⟩ handle
      selection.password := by
  have htoken : authenticationData ⟨name, session.engine.registry, .start handle⟩
      terminalTokenTag = .ok token := authenticationData_of_primitive hdata
  have hact := hdue.act
  rw [mutualAuthenticate_eq, htoken, hdue.selection] at hact
  dsimp only at hact
  rw [readPassword_recorded_eq hdue.storage] at hact
  -- the checks in the order in which they are made, each of them past the ones before
  rcases hstored : storage.password selection.password session.world.1 with ⟨_ | stored, read⟩
  · rw [hstored] at hact
    have hunset : (storage.password selection.password session.world.1).1 = none := by
      rw [hstored]
    exact .unset hdata hunset (withholds_of_fail hdue.limit hstep hact rfl rfl rfl)
  · rw [hstored] at hact
    dsimp only at hact
    have hset : (storage.password selection.password session.world.1).1 = some stored := by
      rw [hstored]
    by_cases hblocked : stored.isBlocked = true
    · rw [if_pos hblocked] at hact
      exact .blocked hdata hset (isBlocked_iff.mp hblocked)
        (withholds_of_fail hdue.limit hstep hact rfl rfl rfl)
    rw [if_neg hblocked] at hact
    by_cases hsuspended : session.engine.data.isSuspended selection.password stored = true
    · rw [if_pos hsuspended] at hact
      obtain ⟨hpin, hone, hunused⟩ := isSuspended_iff.mp hsuspended
      have hcan : ¬ CanSucceeded past := mt htracks.mpr (by simp [hunused])
      exact .suspended hdata hset hpin hone hcan
        (withholds_of_fail hdue.limit hstep hact rfl rfl rfl)
    rw [if_neg hsuspended] at hact
    have hunblocked : stored.retryCounter ≠ some 0 := mt isBlocked_iff.mpr hblocked
    have hresumed : selection.password = .pin → stored.retryCounter = some 1 →
        CanSucceeded past := by
      intro hpin hone
      by_contra hcan
      have hunused : session.engine.data.canAuthenticated = false :=
        Bool.eq_false_iff.mpr (mt htracks.mp hcan)
      exact hsuspended (isSuspended_iff.mpr ⟨hpin, hone, hunused⟩)
    rcases hcall : mechanism.recorded.mutualAuthenticate token session.engine.data.mechanism with
      ⟨result, data⟩
    obtain ⟨answer, houtput, hmechanism, hjudges⟩ :=
      judges_of_call hdue hstep hunblocked hcall hact rfl
    have hcalls : session'.engine.data.calls =
        session.engine.data.calls ++ [.mutualAuthenticate token result] := by
      rw [calls, hmechanism]
      exact calls_of_mutualAuthenticate hcall
    have hresult : (mechanism.mutualAuthenticate token session.engine.data.mechanism.1).1 =
        result := congrArg Prod.fst hcall
    exact .judged hdata hstored hunblocked hresumed hresult (made_eq hcalls) houtput hjudges

end

theorem due_of_fits {options : Options} {maxTransitions : Nat}
    (hunderway : Underway storage.recorded options maxTransitions session.engine)
    (hstate : session.engine.state = .authenticating .keyAgreed)
    (hselection : session.engine.data.selection = some selection)
    (hfits : Fits handle .keyAgreed) : Due mechanism storage session handle selection := by
  have hregistry := hunderway.rests.registry
  obtain ⟨hshape, _⟩ := hasShape_of_fits hregistry hfits
  constructor
  case limit => exact hunderway.limit .keyAgreed hstate
  case storage => exact hunderway.rests.storage
  case selection => exact hselection
  case act =>
    rw [Session.outcome, hstate]
    exact act_of_due mechanism.recorded hshape ((hasShape_due_iff hregistry).mpr hfits)

end

/-- Whatever the mechanism and the card state answer, the last step of an authentication comes to
one of the things listed, and writes no counter but that of the password, once. -/
theorem concludes_of_run (mechanism : Mechanism μ) (storage : Storage W) (data : μ)
    (options : Options) (maxTransitions : Nat) (world : W) (inputs : List Input) :
    ∃ turns, run (Session.step mechanism.recorded)
        (.recorded mechanism storage data options maxTransitions world) inputs = .ok turns ∧
      ∀ past turn future handle selection, turns = past ++ turn :: future →
        turn.input = .command (.start handle) →
        turn.before.engine.state = .authenticating .keyAgreed →
        turn.before.engine.data.selection = some selection → Fits handle .keyAgreed →
        Concludes mechanism storage past turn handle selection.password ∧
        (written turn).length ≤ 1 ∧
        ∀ write ∈ written turn, write.password = selection.password := by
  let Inv : List (Exchange (μ × List Call) (W × List Write)) →
      Session (μ × List Call) (W × List Write) → Prop := fun past session =>
    Selecting storage options maxTransitions past session ∧
      Underway storage.recorded options maxTransitions session.engine
  have hstart : Inv [] (.recorded mechanism storage data options maxTransitions world) :=
    ⟨selecting_start mechanism storage data options maxTransitions world,
      rests_start .., nofun, nofun⟩
  obtain ⟨turns, hrun, hturns⟩ := Session.exists_turns hstart
    (fun _ _ _ _ _ hinv hsteps =>
      ⟨selecting_of_steps hinv.1 hsteps, underway_of_steps hinv.2 hsteps⟩) inputs
  refine ⟨turns, hrun, ?_⟩
  rintro past ⟨before, input, output, after⟩ future handle selection hsplit rfl hstate hselection
    hfits
  obtain ⟨⟨hselecting, hunderway⟩, hturn⟩ := hturns past _ future hsplit
  have hdue : Due mechanism storage before handle selection :=
    due_of_fits hunderway hstate hselection hfits
  have hconcludes : Concludes mechanism storage past
      ⟨before, .command (.start handle), output, after⟩ handle selection.password := by
    rcases carries_of_fits hfits with hempty | ⟨token, hdata⟩
    · exact .empty hempty (withholds_of_empty hdue hturn hempty)
    · exact concludes_of_token hdue hturn hselecting.tracks hdata
  exact ⟨hconcludes, hconcludes.written_le⟩

/-- A mechanism that believes no terminal. -/
def doubting : Mechanism Unit :=
  { trusting with mutualAuthenticate _ _ := (.ok none, ()) }

/-- An authentication with the identification number, up to the last step. -/
def attempt : List Input :=
  [selecting .pin, stepping 0x10 [], stepping 0x10 [0x81, 0x01, 0xAA],
    stepping 0x10 [0x83, 0x01, 0xBB]].map fun handle => .command (.start handle)

/-- A card with three attempts left that cannot be written to. -/
def unwritable : Trial :=
  { Trial.start (CardMemory.empty.withPassword .pin (.fresh [0x31, 0x32] (some 3))) with
    failure := some ⟨0x65, 0x81⟩ }

/-- The last step, with a token that is wrong. -/
def mistaken : Handle :=
  stepping 0x00 [0x85, 0x01, 0xCC]

/-- The turn in which a wrong token meets a card that cannot be written to. -/
def unwrittenTurn : Option (Exchange (Unit × List Call) (Trial × List Write)) :=
  (run (Session.step doubting.recorded)
    (.recorded doubting Trial.storage () .standard 2 unwritable)
    (attempt.concat (.command (.start mistaken)))).toOption.bind List.getLast?

/-- A token is wrong, but the attempt that it costs cannot be stored: the answer is the status word
of that, not the attempts left, and there is no event. -/
theorem unstored_rejection :
    Fits mistaken .keyAgreed ∧ (doubting.mutualAuthenticate [0xCC] ()).1 = .ok none ∧
      unwrittenTurn.map (fun turn => (turn.before.engine.state,
        turn.before.engine.data.selection.map (·.password),
        (Trial.storage.password .pin turn.before.world.1).1.bind (·.retryCounter))) =
          some (.authenticating .keyAgreed, some .pin, some 3) ∧
      unwrittenTurn.map (fun turn => (
        (written turn).map fun write => (write.password, write.counter),
        turn.output.map fun answer => (answer.response.map (·.status), answer.announced))) =
          some ([(.pin, 2)], some (some ⟨0x65, 0x81⟩, [])) ∧
      (⟨0x65, 0x81⟩ : StatusWord) ≠ .retryCounter 2 := by
  refine ⟨?_, rfl, ?_, ?_, by decide⟩
  · unfold Fits
    decide +kernel
  · decide +kernel
  · decide +kernel

end SmartCard.Pace
