import SmartCard.Proofs.Pace.Resting
import SmartCard.Proofs.Pace.Shapes

/-!
# Steps out of sequence

A step of an authentication that comes at the wrong time is refused as out of sequence, unless it
has the shape of the step that is due as well. That is so for a step without a data object where one
with a data object is due, if both are chained: it is refused for the data object that it lacks.
-/

namespace SmartCard.Pace

variable {μ W : Type}

/-! ### One transition -/

section

variable {pace : Pace μ W} {world : W} {step : Step} {progress : Progress}

theorem act_of_not_due (mechanism : Mechanism μ) (hshape : step.hasShape mseSetAt = false)
    (hdue : step.hasShape progress.due = false) (hstep : step.hasShape generalAuthenticate = true) :
    pace.act mechanism world step (.authenticating progress) = .fail outOfSequence pace world := by
  rw [act, hshape]
  cases progress <;> rw [Progress.due] at hdue <;> simp [authenticate, hdue, hstep]

theorem act_of_due (mechanism : Mechanism μ) (hshape : step.hasShape mseSetAt = false)
    (hdue : step.hasShape progress.due = true) :
    pace.act mechanism world step (.authenticating progress) =
      match progress with
      | .setAtProcessed => pace.sendNonce mechanism world
      | .nonceSent => pace.mapNonce mechanism world step
      | .nonceMapped => pace.agreeOnKey mechanism world step
      | .keyAgreed => pace.mutualAuthenticate mechanism world step := by
  rw [act, hshape]
  cases progress <;> rw [Progress.due] at hdue <;> simp [authenticate, hdue]

/-- Whatever step with a data object is due, the data object is looked at first. -/
theorem act_of_missing {inner : Tag} {fault : Fault} (mechanism : Mechanism μ)
    (hshape : step.hasShape mseSetAt = false) (hdue : step.hasShape progress.due = true)
    (hinner : progress.inner? = some inner)
    (hmissing : authenticationData step inner = .error fault) :
    pace.act mechanism world step (.authenticating progress) = .fail fault pace world := by
  rw [act_of_due mechanism hshape hdue]
  cases progress <;> cases hinner <;>
    simp [mapNonce, agreeOnKey, mutualAuthenticate, hmissing]

theorem status_of_readPassword {password : PasswordRef} {world' : W} {fault : Fault}
    (h : pace.readPassword password world = (.error fault, world')) :
    fault.status ≠ ⟨0x69, 0x85⟩ := by
  unfold readPassword at h
  split at h
  · cases h
    decide
  · split at h
    · cases h
    · cases h
      exact ne_of_beq_false rfl

end

/-! ### Turns -/

/-- A turn whose command is answered with a status word alone. Nothing is asked of the mechanism,
and the authentication is over. -/
structure Refuses (turn : Exchange (μ × List Call) W) (status : StatusWord) : Prop where
  response : ∃ answer, turn.output = some answer ∧ answer.response = some (.ofStatus status)
  state : turn.after.engine.state = .idle
  made : made turn = []

theorem Refuses.status_unique {turn : Exchange (μ × List Call) W} {status other : StatusWord}
    (h : Refuses turn status) (hother : Refuses turn other) : status = other := by
  obtain ⟨answer, houtput, hresponse⟩ := h.response
  obtain ⟨answer', houtput', hresponse'⟩ := hother.response
  rw [houtput] at houtput'
  cases houtput'
  rw [hresponse] at hresponse'
  exact congrArg Response.status (Option.some.inj hresponse')

/-- What holds of an engine that has an authentication under way: a command may take transitions,
and the first step finds a selection. -/
structure Underway (storage : Storage W) (options : Options) (maxTransitions : Nat)
    (engine : Driver μ W) : Prop where
  rests : Rests storage options maxTransitions engine
  limit : ∀ progress, engine.state = .authenticating progress → 0 < engine.maxTransitions
  selection : engine.state = .authenticating .setAtProcessed → engine.data.selection ≠ none

variable {mechanism : Mechanism μ} {storage : Storage W} {options : Options} {maxTransitions : Nat}

/-- Only a selection leads to the first step, and nothing that stays there takes it away. -/
theorem selection_of_acts {pace : Pace μ W} {world : W} {step : Step} {state : State}
    {outcome : Outcome μ W} (context : Context)
    (hacts : Acts mechanism pace world step state outcome)
    (hselection : state = .authenticating .setAtProcessed → pace.selection ≠ none)
    (hsettled : outcome.settled context state = .authenticating .setAtProcessed) :
    outcome.pace.selection ≠ none := by
  cases hacts with
  | announced h =>
    rw [announce, h] at hsettled
    cases hsettled
  | unannounced h =>
    rw [announce, h, settled_fail_of_isError _ _ _ _ _ rfl] at hsettled
    cases hsettled
  | refused _ _ herror | halted _ _ herror | withheld _ _ herror =>
    rw [settled_fail_of_isError _ _ _ _ _ herror] at hsettled
    cases hsettled
  | outOfSequence =>
    rw [settled_fail_of_isError _ _ _ _ _ rfl] at hsettled
    cases hsettled
  | selected => exact Option.some_ne_none _
  | unmatched =>
    rcases settled_unmatched pace world context state with h | h <;> rw [h] at hsettled
    · exact hselection hsettled
    · cases hsettled
  | sentNonce | mappedNonce | agreedOnKey =>
    rw [pace_answerStep]
    rcases settled_answerStep .. with ⟨_, h⟩ | ⟨_, h | h⟩ <;> rw [h] at hsettled
    · cases hsettled
    · exact hselection hsettled
    · cases hsettled
  | verified hverifies =>
    cases hverifies with
    | rejected | accepted => cases hsettled
    | _ => rcases settled_fail .. with h | h <;> rw [h] at hsettled <;> cases hsettled

theorem underway_of_steps {session session' : Session μ W} {input : Input}
    {output : Option Context}
    (h : Underway storage options maxTransitions session.engine)
    (hsteps : Session.Steps mechanism session input output session') :
    Underway storage options maxTransitions session'.engine := by
  refine ⟨rests_of_steps h.rests hsteps, ?_, ?_⟩
  · intro progress hstate
    cases hsteps with
    | reset => cases hstate
    | command hanswers =>
      cases hanswers with
      | settled hlimit => exact hlimit
      | _ => cases hstate
  · intro hstate
    cases hsteps with
    | reset => cases hstate
    | command hanswers =>
      cases hanswers with
      | settled _ hacts => exact selection_of_acts _ hacts h.selection hstate
      | _ => cases hstate

/-! ### Steps that fit another step than the one due -/

variable {session session' : Session (μ × List Call) W} {handle : Handle} {output : Option Context}
  {progress other : Progress}

/-- What the first transition for a command comes to. -/
abbrev Session.outcome (mechanism : Mechanism μ) (session : Session μ W) (handle : Handle) :
    Outcome μ W :=
  session.engine.data.act mechanism session.world ⟨name, session.engine.registry, .start handle⟩
    session.engine.state

/-- A turn of a command that is done after one transition. -/
theorem step_of_stops {mechanism : Mechanism μ} {session session' : Session μ W}
    {outcome : Outcome μ W} (hlimit : 0 < session.engine.maxTransitions)
    (hact : session.outcome mechanism handle = outcome)
    (hstops : outcome.stops = true)
    (hstep : session.step mechanism (.command (.start handle)) = .ok (output, session')) :
    output = some (outcome.answered (.start handle)) ∧
      session' = ⟨{ session.engine with
        data := outcome.pace
        state := outcome.settled (.start handle) session.engine.state }, outcome.world⟩ := by
  rw [Session.outcome] at hact
  have hprocess := process_of_stops mechanism session.engine session.world (.start handle) hlimit
    (by rw [hact]; exact hstops)
  rw [Session.step, hprocess, hact] at hstep
  cases hstep
  exact ⟨rfl, rfl⟩

/-- A transition that only raises a fault makes a turn that refuses the command. -/
theorem refuses_of_fail {fault : Fault} {pace : Pace (μ × List Call) W} {read : W}
    (hlimit : 0 < session.engine.maxTransitions)
    (hact : session.outcome mechanism.recorded handle = .fail fault pace read)
    (hcalls : pace.calls = session.engine.data.calls) (herror : fault.status.isError = true)
    (hstep : session.step mechanism.recorded (.command (.start handle)) = .ok (output, session')) :
    Refuses ⟨session, .command (.start handle), output, session'⟩ fault.status := by
  obtain ⟨rfl, rfl⟩ := step_of_stops hlimit hact rfl hstep
  constructor
  case response => exact ⟨_, rfl, rfl⟩
  case state => exact settled_fail_of_isError _ _ _ _ _ herror
  case made => exact made_eq (hcalls.trans (List.append_nil _).symm)

/-- The first step asks for a nonce, unless its password is not there. -/
theorem not_refuses_of_sendNonce (hlimit : 0 < session.engine.maxTransitions)
    (hselection : session.engine.data.selection ≠ none)
    (hact : session.outcome mechanism.recorded handle =
      session.engine.data.sendNonce mechanism.recorded session.world)
    (hstep : session.step mechanism.recorded (.command (.start handle)) = .ok (output, session')) :
    ¬ Refuses ⟨session, .command (.start handle), output, session'⟩ ⟨0x69, 0x85⟩ := by
  intro hrefuses
  obtain ⟨selection, hselection⟩ := Option.ne_none_iff_exists'.mp hselection
  unfold sendNonce at hact
  rw [hselection] at hact
  dsimp only at hact
  rcases hpassword : session.engine.data.readPassword selection.password session.world with
    ⟨fault | stored, read⟩
  · rw [hpassword] at hact
    have herror := isError_of_readPassword hpassword
    have hother := refuses_of_fail hlimit hact rfl herror hstep
    exact status_of_readPassword hpassword (hother.status_unique hrefuses)
  · rw [hpassword] at hact
    dsimp only at hact
    obtain ⟨rfl, rfl⟩ := step_of_stops hlimit hact (stops_answerStep ..) hstep
    have hmade := hrefuses.made
    rw [made_eq (by rw [calls, pace_answerStep]; rfl)] at hmade
    cases hmade

/-- A command that fits a step is a step, and no selection. -/
theorem hasShape_of_fits {registry : Registry} (hregistry : registry = .ofList shapes)
    (hfits : Fits handle other) :
    (Step.mk name registry (.start handle)).hasShape mseSetAt = false ∧
      (Step.mk name registry (.start handle)).hasShape generalAuthenticate = true := by
  obtain ⟨hins, _⟩ := (isMatch_shape_iff other).mp (fits_iff.mp hfits)
  rw [hasShape_eq hregistry get?_mseSetAt, hasShape_eq hregistry get?_generalAuthenticate]
  refine ⟨?_, isMatch_anyStep_iff.mpr hins⟩
  rw [Bool.eq_false_iff, Ne, isMatch_anySelection_iff]
  rintro ⟨hselection, _⟩
  have hselection : handle.command.ins = 0x22 := hselection
  rw [hins] at hselection
  exact absurd hselection (by decide)

theorem hasShape_due_iff {registry : Registry} (hregistry : registry = .ofList shapes) :
    (Step.mk name registry (.start handle)).hasShape progress.due = true ↔
      Fits handle progress := by
  rw [hregistry]
  exact Iff.rfl

section

variable (hunderway : Underway storage options maxTransitions session.engine)
  (hstate : session.engine.state = .authenticating progress)
  (hstep : session.step mechanism.recorded (.command (.start handle)) = .ok (output, session'))

include hunderway hstate hstep

theorem refuses_of_not_fits (hfits : Fits handle other) (hnot : ¬ Fits handle progress) :
    Refuses ⟨session, .command (.start handle), output, session'⟩ ⟨0x69, 0x85⟩ := by
  have hregistry := hunderway.rests.registry
  obtain ⟨hshape, hany⟩ := hasShape_of_fits hregistry hfits
  have hdue := Bool.eq_false_iff.mpr (mt (hasShape_due_iff hregistry).mp hnot)
  have herror : outOfSequence.status.isError = true := rfl
  have hact : session.outcome mechanism.recorded handle =
      .fail outOfSequence session.engine.data session.world := by
    rw [Session.outcome, hstate]
    exact act_of_not_due mechanism.recorded hshape hdue hany
  exact refuses_of_fail (hunderway.limit progress hstate) hact rfl herror hstep

/-- What fits both steps has no data object, and every step but the first one needs one. -/
theorem refuses_of_fits_both (hother : other ≠ progress) (hfits : Fits handle other)
    (hboth : Fits handle progress) (hprogress : progress ≠ .setAtProcessed) :
    Refuses ⟨session, .command (.start handle), output, session'⟩ ⟨0x6A, 0x80⟩ := by
  have hregistry := hunderway.rests.registry
  obtain ⟨hshape, _⟩ := hasShape_of_fits hregistry hfits
  have hdue := (hasShape_due_iff hregistry).mpr hboth
  obtain ⟨_, _, hblank⟩ := (fits_both_iff hother).mp ⟨hfits, hboth⟩
  obtain ⟨object, hobject, htag, hempty⟩ := hblank.data
  obtain ⟨inner, hinner⟩ : ∃ inner, progress.inner? = some inner := by
    cases progress with
    | setAtProcessed => exact absurd rfl hprogress
    | nonceSent | nonceMapped | keyAgreed => exact ⟨_, rfl⟩
  let step := Step.mk name session.engine.registry (.start handle)
  have hobject : Object.decodeAll step.command.command.data = .ok [object] := hobject
  obtain ⟨fault, hmissing, hstatus⟩ :=
    authenticationData_of_children_eq_nil hobject htag hempty inner
  have herror : fault.status.isError = true := by
    rw [hstatus]
    rfl
  have hact : session.outcome mechanism.recorded handle =
      .fail fault session.engine.data session.world := by
    rw [Session.outcome, hstate]
    exact act_of_missing mechanism.recorded hshape hdue hinner hmissing
  rw [← hstatus]
  exact refuses_of_fail (hunderway.limit progress hstate) hact rfl herror hstep

/-- A step that fits another one than the one due is out of sequence if it does not fit that one
too, and only then. -/
theorem refuses_iff (hother : other ≠ progress) (hfits : Fits handle other) :
    Refuses ⟨session, .command (.start handle), output, session'⟩ ⟨0x69, 0x85⟩ ↔
      ¬ Fits handle progress := by
  constructor
  · intro hrefuses hboth
    by_cases hprogress : progress = .setAtProcessed
    · subst hprogress
      have hregistry := hunderway.rests.registry
      obtain ⟨hshape, _⟩ := hasShape_of_fits hregistry hfits
      have hdue := (hasShape_due_iff hregistry).mpr hboth
      have hact : session.outcome mechanism.recorded handle =
          session.engine.data.sendNonce mechanism.recorded session.world := by
        rw [Session.outcome, hstate]
        exact act_of_due mechanism.recorded hshape hdue
      exact not_refuses_of_sendNonce (hunderway.limit _ hstate) (hunderway.selection hstate) hact
        hstep hrefuses
    · have hmissing := refuses_of_fits_both hunderway hstate hstep hother hfits hboth hprogress
      exact absurd (hrefuses.status_unique hmissing) (by decide)
  · exact refuses_of_not_fits hunderway hstate hstep hfits

end

/-- No command fits two steps of an authentication but a chained one without a data object, which
fits all that are chained. While an authentication is under way, a command that fits another step
than the one due is refused as out of sequence exactly if it does not fit the one due too. -/
theorem refuses_of_run (mechanism : Mechanism μ) (storage : Storage W) (data : μ)
    (options : Options) (maxTransitions : Nat) (world : W) (inputs : List Input) :
    (∀ handle first second, first ≠ second →
      (Fits handle first ∧ Fits handle second ↔
        first ≠ .keyAgreed ∧ second ≠ .keyAgreed ∧ IsBlank handle.command)) ∧
    ∃ turns, run (Session.step mechanism.recorded)
        (.start mechanism.recorded storage (data, []) options maxTransitions world) inputs =
          .ok turns ∧
      ∀ past turn future handle progress other, turns = past ++ turn :: future →
        turn.input = .command (.start handle) →
        turn.before.engine.state = .authenticating progress → other ≠ progress →
        Fits handle other →
        (Refuses turn ⟨0x69, 0x85⟩ ↔ ¬ Fits handle progress) ∧
        (Fits handle progress → progress ≠ .setAtProcessed → Refuses turn ⟨0x6A, 0x80⟩) := by
  let Inv : List (Exchange (μ × List Call) W) → Session (μ × List Call) W → Prop :=
    fun _ session => Underway storage options maxTransitions session.engine
  have hstart : Inv []
      (.start mechanism.recorded storage (data, []) options maxTransitions world) :=
    ⟨rests_start .., nofun, nofun⟩
  obtain ⟨turns, hrun, hturns⟩ := Session.exists_turns hstart
    (fun _ _ _ _ _ hunderway hsteps => underway_of_steps hunderway hsteps) inputs
  refine ⟨fun handle first second => fits_both_iff, turns, hrun, ?_⟩
  rintro past ⟨before, input, output, after⟩ future handle progress other hsplit rfl hstate hother
    hfits
  obtain ⟨hunderway, hturn⟩ := hturns past _ future hsplit
  exact ⟨refuses_iff hunderway hstate hturn hother hfits,
    refuses_of_fits_both hunderway hstate hturn hother hfits⟩

/-- A chained step without a data object. -/
def blank : Handle :=
  .root (.received 0) ⟨0x10, 0x86, 0x00, 0x00, [0x7C, 0x00], some 0x100, false⟩

/-- The first step fits the second one too, so that it is not out of sequence if it comes again. -/
theorem blank_repeated :
    Fits blank .setAtProcessed ∧ Fits blank .nonceSent ∧
      ((run (Session.step trusting) opened
        ((opening.take 2).concat (.command (.start blank)))).toOption.map fun turns =>
          turns.map fun turn => (turn.before.engine.state,
            (turn.output.bind (·.response)).map (·.status))) =
        some [(.idle, some ⟨0x90, 0x00⟩), (.authenticating .setAtProcessed, some ⟨0x90, 0x00⟩),
          (.authenticating .nonceSent, some ⟨0x6A, 0x80⟩)] := by
  refine ⟨?_, ?_, ?_⟩
  · unfold Fits
    decide +kernel
  · unfold Fits
    decide +kernel
  · decide +kernel

end SmartCard.Pace
