import Mathlib.Data.List.DropRight
import SmartCard.Proofs.Pace.Session

/-!
# The order of calls

The calls of the mechanism come in the order of an authentication. What carries this through errors
and restarts is that the state of the engine tells which stages are done, as long as there is still
a selection to verify a token for.
-/

namespace SmartCard.Pace

variable {μ V W : Type}

/-- The calls since the last reset of the mechanism. -/
def current (calls : List Call) : List Call :=
  calls.rtakeWhile (·.stage?.isSome)

/-- The stages attempted since the last reset of the mechanism. -/
def attempted (calls : List Call) : List Stage :=
  (current calls).filterMap Call.stage?

/-- The stages that were answered since the last reset of the mechanism. -/
def completed (calls : List Call) : List Stage :=
  ((current calls).filter Call.isAnswered).filterMap Call.stage?

/-- At every moment, the stages that were answered since the last reset are the first ones of the
order, the stage attempted next is the one after them, and at most one token was verified. -/
structure InOrder (calls : List Call) : Prop where
  completed : ∀ before, before <+: calls → completed before <+: Stage.order
  due : ∀ before call stage, before ++ [call] <+: calls → call.stage? = some stage →
    Pace.completed before = Stage.order.takeWhile (· ≠ stage)
  once : ∀ before, before <+: calls → (attempted before).count .mutualAuthenticate ≤ 1

/-! ### One more call -/

@[simp] theorem attempted_reset (calls : List Call) : attempted (calls ++ [.reset]) = [] := by
  unfold attempted current
  rw [List.rtakeWhile_concat]
  rfl

@[simp] theorem completed_reset (calls : List Call) : completed (calls ++ [.reset]) = [] := by
  unfold completed current
  rw [List.rtakeWhile_concat]
  rfl

theorem current_concat {call : Call} {stage : Stage} (hstage : call.stage? = some stage)
    (calls : List Call) : current (calls ++ [call]) = current calls ++ [call] := by
  unfold current
  rw [List.rtakeWhile_concat, if_pos]
  rw [hstage]
  rfl

theorem attempted_concat {call : Call} {stage : Stage} (hstage : call.stage? = some stage)
    (calls : List Call) : attempted (calls ++ [call]) = attempted calls ++ [stage] := by
  unfold attempted
  rw [current_concat hstage, List.filterMap_append]
  simp [hstage]

theorem completed_concat {call : Call} {stage : Stage} (hstage : call.stage? = some stage)
    (calls : List Call) :
    completed (calls ++ [call]) =
      completed calls ++ if call.isAnswered = true then [stage] else [] := by
  unfold completed
  rw [current_concat hstage, List.filter_append, List.filterMap_append]
  by_cases hanswered : call.isAnswered = true
  · rw [if_pos hanswered, List.filter_cons_of_pos hanswered]
    simp [hstage]
  · rw [if_neg hanswered, List.filter_cons_of_neg hanswered]
    rfl

theorem inOrder_nil : InOrder [] := by
  refine ⟨?_, ?_, ?_⟩
  · intro before hbefore
    rw [List.prefix_nil.mp hbefore]
    exact List.nil_prefix
  · intro before call stage hbefore
    exact absurd (List.prefix_nil.mp hbefore) (by simp)
  · intro before hbefore
    rw [List.prefix_nil.mp hbefore]
    decide

theorem InOrder.reset {calls : List Call} (h : InOrder calls) : InOrder (calls ++ [.reset]) := by
  refine ⟨?_, ?_, ?_⟩
  · intro before hbefore
    rcases List.prefix_concat_iff.mp hbefore with rfl | hbefore
    · rw [completed_reset]
      exact List.nil_prefix
    · exact h.completed before hbefore
  · intro before call stage hbefore hstage
    rcases List.prefix_concat_iff.mp hbefore with hlast | hbefore
    · obtain ⟨rfl, hcall⟩ := List.append_inj' hlast rfl
      cases hcall
      cases hstage
    · exact h.due before call stage hbefore hstage
  · intro before hbefore
    rcases List.prefix_concat_iff.mp hbefore with rfl | hbefore
    · rw [attempted_reset]
      decide
    · exact h.once before hbefore

/-- A stage is due, and no token was verified since the last reset. -/
structure OnTrack (calls : List Call) (stage : Stage) : Prop where
  completed : completed calls = Stage.order.takeWhile (· ≠ stage)
  unverified : .mutualAuthenticate ∉ attempted calls

theorem InOrder.concat {calls : List Call} {call : Call} {stage : Stage} (h : InOrder calls)
    (hstage : call.stage? = some stage) (htrack : OnTrack calls stage) :
    InOrder (calls ++ [call]) := by
  refine ⟨?_, ?_, ?_⟩
  · intro before hbefore
    rcases List.prefix_concat_iff.mp hbefore with rfl | hbefore
    · rw [completed_concat hstage, htrack.completed]
      cases stage <;> split <;> decide
    · exact h.completed before hbefore
  · intro before other otherStage hbefore hother
    rcases List.prefix_concat_iff.mp hbefore with hlast | hbefore
    · obtain ⟨rfl, hcall⟩ := List.append_inj' hlast rfl
      cases hcall
      rw [hstage] at hother
      cases hother
      exact htrack.completed
    · exact h.due before other otherStage hbefore hother
  · intro before hbefore
    rcases List.prefix_concat_iff.mp hbefore with rfl | hbefore
    · rw [attempted_concat hstage, List.count_append, List.count_eq_zero.mpr htrack.unverified,
        Nat.zero_add]
      exact List.count_le_length
    · exact h.once before hbefore

/-! ### One transition -/

/-- The stage that comes next in an authentication. -/
def Progress.stage : Progress → Stage
  | setAtProcessed => .encryptedNonce
  | nonceSent => .mapNonce
  | nonceMapped => .keyAgreement
  | keyAgreed => .mutualAuthenticate

/-- The calls are in order, and the state tells which stage is due. Without a selection there is
nothing to verify a token for, so nothing is said about that stage then. -/
structure Orderly (pace : Pace (μ × List Call) V) (state : State) : Prop where
  ordered : InOrder pace.calls
  track : ∀ progress, state = .authenticating progress →
    (progress = .keyAgreed → pace.selection ≠ none) → OnTrack pace.calls progress.stage

theorem Orderly.settled {pace : Pace (μ × List Call) V} {state next : State}
    (h : Orderly pace state) (hnext : next = state ∨ next = .idle) : Orderly pace next := by
  rcases hnext with rfl | rfl
  · exact h
  · exact ⟨h.ordered, nofun⟩

/-- Once the selection is taken, no stage is due any more. -/
theorem orderly_of_taken {pace : Pace (μ × List Call) V} {next : State}
    (hordered : InOrder pace.calls) (hselection : pace.selection = none)
    (hnext : next = .authenticating .keyAgreed ∨ next = .idle) : Orderly pace next := by
  refine ⟨hordered, ?_⟩
  rintro progress hprogress hkept
  rcases hnext with rfl | rfl
  · cases hprogress
    exact absurd hselection (hkept rfl)
  · cases hprogress

/-- A stage that was answered makes the next one due, and one that was not stays due. -/
theorem orderly_answerStep {pace : Pace (μ × List Call) V} {progress next : Progress}
    {message : String} {inner : Tag} {result : Except Fault Bytes × (μ × List Call)} {call : Call}
    {world : V} {context : Context} (h : Orderly pace (.authenticating progress))
    (hprogress : progress ≠ .keyAgreed) (hstage : call.stage? = some progress.stage)
    (hanswered : call.isAnswered = result.1.toBool) (hcalls : result.2.2 = pace.calls ++ [call])
    (hnext : Stage.order.takeWhile (· ≠ next.stage) =
      Stage.order.takeWhile (· ≠ progress.stage) ++ [progress.stage]) :
    Orderly (pace.answerStep world message inner next result).pace
      ((pace.answerStep world message inner next result).settled context
        (.authenticating progress)) := by
  have htrack := h.track progress rfl (absurd · hprogress)
  have hpace : calls (pace.answerStep world message inner next result).pace =
      pace.calls ++ [call] := by
    rw [pace_answerStep, calls, hcalls]
  have hattempted : attempted (pace.calls ++ [call]) = attempted pace.calls ++ [progress.stage] :=
    attempted_concat hstage pace.calls
  have hunverified : .mutualAuthenticate ∉ attempted (pace.calls ++ [call]) := by
    rw [hattempted]
    have hother : Stage.mutualAuthenticate ≠ progress.stage := by
      cases progress <;> simp [Progress.stage] at hprogress ⊢
    simp [htrack.unverified, hother]
  refine ⟨?_, ?_⟩
  · rw [hpace]
    exact h.ordered.concat hstage htrack
  · rw [hpace]
    intro after hafter _
    refine ⟨?_, hunverified⟩
    rw [completed_concat hstage, htrack.completed, hanswered]
    rcases settled_answerStep pace world context (.authenticating progress) message inner next
      result with ⟨hok, hsettled⟩ | ⟨herror, hsettled⟩
    · rw [hsettled] at hafter
      cases hafter
      rw [if_pos hok, hnext]
    · have hsame : after = progress := by
        rcases hsettled with hsettled | hsettled <;> rw [hsettled] at hafter <;> cases hafter
        rfl
      rw [herror, hsame]
      simp

variable {mechanism : Mechanism μ}

/-- A token is only verified for a selection, so that stage is due. -/
theorem Orderly.verify {pace : Pace (μ × List Call) V} {state : State} {selection : Selection}
    {token : Bytes} {result : Except Fault (Option Authentication)} {data : μ × List Call}
    (h : Orderly pace state) (hstate : state = .authenticating .keyAgreed)
    (hselection : pace.selection = some selection)
    (hcall : mechanism.recorded.mutualAuthenticate token pace.mechanism = (result, data)) :
    InOrder data.2 := by
  rw [calls_of_mutualAuthenticate hcall]
  refine h.ordered.concat rfl (h.track .keyAgreed hstate ?_)
  intro _
  rw [hselection]
  exact nofun

theorem orderly_of_acts {pace : Pace (μ × List Call) V} {world : V} {step : Step} {state : State}
    {outcome : Outcome (μ × List Call) V} (context : Context)
    (hacts : Acts mechanism.recorded pace world step state outcome)
    (hstops : outcome.stops = true) (hstate : state ≠ .established) (h : Orderly pace state) :
    Orderly outcome.pace (outcome.settled context state) := by
  cases hacts with
  | announced | unannounced => exact absurd rfl hstate
  | refused _ _ herror =>
    rw [settled_fail_of_isError _ _ _ _ _ herror]
    exact ⟨h.ordered.reset, nofun⟩
  | selected =>
    refine ⟨h.ordered.reset, ?_⟩
    rintro progress ⟨⟩ _
    refine ⟨?_, ?_⟩
    · exact completed_reset pace.calls
    · change .mutualAuthenticate ∉ attempted (pace.calls ++ [.reset])
      rw [attempted_reset]
      exact List.not_mem_nil
  | outOfSequence => exact h.settled (settled_fail ..)
  | unmatched => exact h.settled (settled_unmatched ..)
  | halted => exact h.settled (settled_fail ..)
  | sentNonce => exact orderly_answerStep h nofun rfl rfl rfl rfl
  | mappedNonce => exact orderly_answerStep h nofun rfl rfl rfl rfl
  | agreedOnKey => exact orderly_answerStep h nofun rfl rfl rfl rfl
  | withheld => exact orderly_of_taken h.ordered rfl (settled_fail ..)
  | verified hverifies =>
    obtain ⟨_, _, _, _, _, hpresents, hcall, htaken⟩ := hverifies.taken
    refine orderly_of_taken (h.verify rfl hpresents.selected hcall) htaken ?_
    cases hverifies with
    | rejected => exact .inr rfl
    | accepted => simp [Outcome.stops] at hstops
    | _ => exact settled_fail ..

theorem orderly_of_answers {engine engine' : Driver (μ × List Call) V} {world world' : V}
    {context context' : Context} (hstate : engine.state ≠ .established)
    (h : Orderly engine.data engine.state)
    (hanswers : Answers mechanism.recorded engine world context engine' world' context') :
    Orderly engine'.data engine'.state := by
  cases hanswers with
  | untouched => exact h.settled (.inr rfl)
  | settled _ hacts hstops => exact orderly_of_acts context hacts hstops hstate h
  | unannounced _ hstate hgrants | announced _ hstate hgrants =>
    have hordered := h.verify hstate hgrants.presents.selected hgrants.called
    exact orderly_of_taken hordered rfl (.inr rfl)

theorem orderly_of_steps {session session' : Session (μ × List Call) V} {input : Input}
    {output : Option Context} (hstate : session.engine.state ≠ .established)
    (h : Orderly session.engine.data session.engine.state)
    (hsteps : Session.Steps mechanism.recorded session input output session') :
    Orderly session'.engine.data session'.engine.state := by
  cases hsteps with
  | command hanswers => exact orderly_of_answers hstate h hanswers
  | reset => exact ⟨h.ordered.reset, nofun⟩

/-! ### Runs -/

theorem prepares_of_steps {session session' : Session (μ × List Call) V} {input : Input}
    {output : Option Context}
    (hsteps : Session.Steps mechanism.recorded session input output session')
    {algorithm : Algorithm} {domainParameters : UInt8} {secret : Bytes}
    {result : Except Fault Bytes}
    (hmem : .encryptedNonce algorithm domainParameters secret result ∈
      made ⟨session, input, output, session'⟩) :
    session.engine.data.Prepares session.world
      (.encryptedNonce algorithm domainParameters secret result) := by
  have hnone : ∀ call, session'.engine.data.calls = session.engine.data.calls ++ [call] →
      call.stage? ≠ some .encryptedNonce → False := by
    intro call hcalls hstage
    rw [made_eq hcalls] at hmem
    cases List.mem_singleton.mp hmem
    exact hstage rfl
  cases hsteps with
  | reset => exact (hnone .reset rfl nofun).elim
  | command hanswers =>
    cases hanswers with
    | untouched =>
      rw [made_eq (List.append_nil _).symm] at hmem
      cases hmem
    | settled _ hacts =>
      rcases verifies_or_prepares hacts with ⟨_, hverifies⟩ | ⟨_, _, made, hcalls, hprepares⟩
      · obtain ⟨_, _, _, _, _, _, hcall, _⟩ := hverifies.taken
        exact (hnone _ (calls_of_mutualAuthenticate hcall) nofun).elim
      · rw [made_eq hcalls] at hmem
        exact hprepares _ hmem
    | unannounced _ _ hgrants | announced _ _ hgrants =>
      exact (hnone _ (calls_of_mutualAuthenticate hgrants.called) nofun).elim

structure Ordered (storage : Storage W) (options : Options) (maxTransitions : Nat)
    (past : List (Exchange (μ × List Call) (W × List Write)))
    (session : Session (μ × List Call) (W × List Write)) : Prop where
  steady : Steady storage.recorded options maxTransitions past session
  orderly : Orderly session.engine.data session.engine.state

/-- Whatever the mechanism and the card state answer, the mechanism is called in the order of an
authentication. A nonce is encrypted under the secret that is stored for the password of the last
selection that was accepted, with the algorithm that this selection names and with the domain
parameters of the card. -/
theorem calls_inOrder (mechanism : Mechanism μ) (storage : Storage W) (data : μ)
    (options : Options) (maxTransitions : Nat) (world : W) (inputs : List Input) :
    ∃ turns, run (Session.step mechanism.recorded)
        (.recorded mechanism storage data options maxTransitions world) inputs = .ok turns ∧
      ∀ past future, turns = past ++ future →
        InOrder (stateAfter (.recorded mechanism storage data options maxTransitions world)
          past).engine.data.calls ∧
        ∀ turn rest, future = turn :: rest → ∀ algorithm domainParameters secret result,
          .encryptedNonce algorithm domainParameters secret result ∈ made turn →
          ∃ objects oid password stored read, lastAccepted past = some objects ∧
            content? algorithmTag objects = some oid ∧
            Algorithm.ofOid? oid = some algorithm ∧
            domainParameters = options.domainParameters ∧
            content? passwordTag objects = some [password.reference] ∧
            storage.password password turn.before.world.1 = (some stored, read) ∧
            secret = stored.secret := by
  have hstart : Ordered storage options maxTransitions []
      (.recorded mechanism storage data options maxTransitions world) :=
    ⟨steady_start .., inOrder_nil, nofun⟩
  have hstep : ∀ past session input, Ordered storage options maxTransitions past session →
      ∃ output session', session.step mechanism.recorded input = .ok (output, session') ∧
        Ordered storage options maxTransitions (past ++ [⟨session, input, output, session'⟩])
          session' := by
    rintro past session input ⟨hsteady, horderly⟩
    obtain ⟨output, session', hstep, hsteps⟩ := session.steps_step mechanism.recorded input
    exact ⟨output, session', hstep, steady_of_steps hsteady hsteps,
      orderly_of_steps hsteady.rests.state horderly hsteps⟩
  obtain ⟨turns, hrun, hturns⟩ := run_of_invariant hstart hstep inputs
  refine ⟨turns, hrun, ?_⟩
  intro past future hsplit
  obtain ⟨⟨_, horderly⟩, hnext⟩ := hturns past future hsplit
  refine ⟨horderly.ordered, ?_⟩
  intro turn rest hfuture algorithm domainParameters secret result hmem
  obtain ⟨⟨hsteady, _⟩, hturn⟩ := hnext turn rest hfuture
  obtain ⟨selection, stored, read, hselection, hpassword, rfl, rfl, rfl⟩ :=
    prepares_of_steps (Session.steps_of_step hturn) hmem
  obtain ⟨objects, hlast, hobjects⟩ := hsteady.selected selection hselection
  obtain ⟨hoid, hknown, hreference, _⟩ := content_of_ofObjects hobjects
  obtain ⟨hstored, _⟩ := readPassword_recorded hsteady.rests.storage hpassword
  exact ⟨objects, selection.oid, selection.password, stored, read.1, hlast, hoid, hknown,
    by rw [hsteady.rests.options], hreference, hstored, rfl⟩

end SmartCard.Pace
