import SmartCard.Proofs.Pace.Session
import SmartCard.Proofs.Protocol.Rounds

/-!
# PACE at rest

What a state calls for is there whenever a transition starts: a selection while an authentication is
under way, and keys when they are to be announced. Between the steps of an authentication this
depends on the faults of the mechanism and of writes: one that is neither a warning nor an error
would leave the state of a token that was presented, and the selection is gone by then.
-/

namespace SmartCard

/-- The SW1 of a fault is one of 62 to 6F, so it is answered with a warning or an error. -/
def Fault.IsFailure (fault : Fault) : Prop :=
  0x62 ≤ fault.status.sw1 ∧ fault.status.sw1 ≤ 0x6F

namespace Pace

variable {μ W : Type}

/-- The mechanism and the access to the card state raise only faults that are failures. The first
three steps of the mechanism may raise any. -/
structure Failing (mechanism : Mechanism μ) (storage : Storage W) : Prop where
  verifying : ∀ token data fault data',
    mechanism.mutualAuthenticate token data = (.error fault, data') → fault.IsFailure
  writing : ∀ password counter world fault world',
    storage.setRetryCounter password counter world = (.error fault, world') → fault.IsFailure

/-- What a state calls for is there. -/
structure Complete (pace : Pace μ W) (state : State) : Prop where
  selection : ∀ progress, state = .authenticating progress → pace.selection ≠ none
  established : state = .established → pace.established ≠ none

/-- A transition comes to the fault of something that should be there. -/
inductive Lacks (pace : Pace μ W) (step : Step) : State → Fault → Prop
  | keys (hestablished : pace.established = none) :
      Lacks pace step .established ⟨.unknownError, "no established session"⟩
  | nonce (hshape : step.hasShape mseSetAt = false)
      (hdue : step.hasShape Progress.setAtProcessed.due = true)
      (hselection : pace.selection = none) :
      Lacks pace step (.authenticating .setAtProcessed) outOfSequence
  | token {token : Bytes} (hshape : step.hasShape mseSetAt = false)
      (hdue : step.hasShape Progress.keyAgreed.due = true)
      (hdata : authenticationData step terminalTokenTag = .ok token)
      (hselection : pace.selection = none) :
      Lacks pace step (.authenticating .keyAgreed) outOfSequence

theorem act_of_lacks (mechanism : Mechanism μ) {pace : Pace μ W} {world : W} {step : Step}
    {state : State} {fault : Fault} (h : Lacks pace step state fault) :
    pace.act mechanism world step state = .fail fault pace world := by
  cases h with
  | keys hestablished => rw [act, announce, hestablished]
  | nonce hshape hdue hselection =>
    have hdue : step.hasShape gaEncryptedNonce = true := hdue
    simp only [act, hshape, authenticate, hdue, sendNonce, hselection, Bool.false_eq_true, if_false,
      if_true]
  | token hshape hdue hdata hselection =>
    have hdue : step.hasShape gaMutualAuthenticate = true := hdue
    simp only [act, hshape, authenticate, hdue, mutualAuthenticate, hdata, hselection,
      Bool.false_eq_true, if_false, if_true]

theorem Complete.not_lacks {pace : Pace μ W} {state : State} (h : Complete pace state)
    (step : Step) (fault : Fault) : ¬ Lacks pace step state fault := by
  intro hlacks
  cases hlacks with
  | keys hestablished => exact h.established rfl hestablished
  | nonce _ _ hselection => exact h.selection _ rfl hselection
  | token _ _ _ hselection => exact h.selection _ rfl hselection

theorem complete_idle (pace : Pace μ W) : Complete pace .idle :=
  ⟨nofun, nofun⟩

/-! ### One transition -/

theorem settled_fail_of_isFailure {fault : Fault} (pace : Pace μ W) (world : W) (context : Context)
    (state : State) (hfault : fault.IsFailure) :
    (Outcome.fail fault pace world).settled context state = .idle := by
  have hstatus : (fault.status.isWarning || fault.status.isError) = true := by
    simp only [Fault.IsFailure, StatusWord.isWarning, StatusWord.isError, Bool.or_eq_true,
      decide_eq_true_eq, ← UInt8.toNat_inj, UInt8.le_iff_toNat_le, UInt8.reduceToNat] at hfault ⊢
    omega
  have hfailed : hasFailed ((Outcome.fail fault pace world).answered context) = true := hstatus
  unfold Outcome.settled
  rw [hfailed]
  rfl

variable {mechanism : Mechanism μ} {storage : Storage W}

theorem isFailure_of_writeCounter (hfailing : Failing mechanism storage) {pace : Pace μ W}
    {password : PasswordRef} {counter : UInt8} {world world' : W} {fault : Fault}
    (hstorage : pace.storage = some storage)
    (h : pace.writeCounter password counter world = (.error fault, world')) :
    fault.IsFailure := by
  unfold writeCounter at h
  rw [hstorage] at h
  exact hfailing.writing _ _ _ _ _ h

theorem isFailure_of_spendAttempt (hfailing : Failing mechanism storage) {pace : Pace μ W}
    {password : PasswordRef} {stored : PasswordState} {world world' : W} {fault : Fault}
    (hstorage : pace.storage = some storage)
    (h : pace.spendAttempt password stored world = (.error fault, world')) :
    fault.IsFailure := by
  unfold spendAttempt at h
  split at h
  · cases h
  · exact isFailure_of_writeCounter hfailing hstorage h

theorem isFailure_of_restoreCounter (hfailing : Failing mechanism storage) {pace : Pace μ W}
    {password : PasswordRef} {stored : PasswordState} {world world' : W} {fault : Fault}
    (hstorage : pace.storage = some storage)
    (h : pace.restoreCounter password stored world = (.error fault, world')) :
    fault.IsFailure := by
  unfold restoreCounter at h
  split at h
  · split at h
    · cases h
    · exact isFailure_of_writeCounter hfailing hstorage h
  · cases h

/-- A transition that leaves the selection alone, to where a selection was called for before. -/
theorem Complete.settled {pace pace' : Pace μ W} {state next : State} (h : Complete pace state)
    (hselection : pace'.selection = pace.selection) (hstate : state ≠ .established)
    (hnext : next = state ∨ next = .idle) : Complete pace' next := by
  rcases hnext with rfl | rfl
  · refine ⟨?_, (absurd · hstate)⟩
    rw [hselection]
    exact h.selection
  · exact complete_idle pace'

theorem complete_of_answerStep {pace : Pace μ W} {progress next : Progress} {message : String}
    {inner : Tag} {result : Except Fault Bytes × μ} {world : W} (context : Context)
    (h : Complete pace (.authenticating progress)) :
    Complete (pace.answerStep world message inner next result).pace
      ((pace.answerStep world message inner next result).settled context
        (.authenticating progress)) := by
  rw [pace_answerStep]
  rcases settled_answerStep pace world context (.authenticating progress) message inner next
    result with ⟨_, hsettled⟩ | ⟨_, hsettled⟩
  · rw [hsettled]
    exact ⟨fun _ _ => h.selection progress rfl, nofun⟩
  · exact h.settled rfl (authenticating_ne_established progress) hsettled

theorem complete_of_acts (hfailing : Failing mechanism storage) {pace : Pace μ W} {world : W}
    {step : Step} {state : State} {outcome : Outcome μ W} (context : Context)
    (hstorage : pace.storage = some storage) (h : Complete pace state)
    (hacts : Acts mechanism pace world step state outcome) :
    Complete outcome.pace (outcome.settled context state) := by
  cases hacts with
  | announced hestablished =>
    rw [announce, hestablished]
    exact complete_idle _
  | unannounced hestablished => exact absurd hestablished (h.established rfl)
  | refused _ _ herror | halted _ _ herror | withheld _ _ herror =>
    rw [settled_fail_of_isError _ _ _ _ _ herror]
    exact complete_idle _
  | selected =>
    refine ⟨fun _ _ => Option.some_ne_none _, ?_⟩
    intro hestablished
    exact absurd hestablished (authenticating_ne_established _)
  | outOfSequence hstate => exact h.settled rfl hstate (settled_fail ..)
  | unmatched hstate => exact h.settled rfl hstate (settled_unmatched ..)
  | sentNonce | mappedNonce | agreedOnKey => exact complete_of_answerStep context h
  | verified hverifies =>
    -- The selection is taken, so only faults that end the authentication leave nothing missing.
    cases hverifies with
    | rejected => exact complete_idle _
    | accepted =>
      refine ⟨?_, fun _ => Option.some_ne_none _⟩
      intro progress hprogress
      exact absurd hprogress.symm (authenticating_ne_established progress)
    | unverified _ hcall =>
      rw [settled_fail_of_isFailure _ _ _ _ (hfailing.verifying _ _ _ _ hcall)]
      exact complete_idle _
    | unspent _ _ hspent =>
      rw [settled_fail_of_isFailure _ _ _ _ (isFailure_of_spendAttempt hfailing hstorage hspent)]
      exact complete_idle _
    | unrestored _ _ hrestored =>
      rw [settled_fail_of_isFailure _ _ _ _
        (isFailure_of_restoreCounter hfailing hstorage hrestored)]
      exact complete_idle _

/-! ### All transitions of a command -/

/-- An engine with access to the card state has what its state calls for. -/
structure Equipped (storage : Storage W) (engine : Driver μ W) : Prop where
  storage : engine.data.storage = some storage
  complete : Complete engine.data engine.state

theorem equipped_of_made (hfailing : Failing mechanism storage)
    {round : Engine.Round State Mode (Pace μ W) W}
    (hmade : round.Made (protocol mechanism) name) (h : Equipped storage round.before.engine) :
    Equipped storage round.after.engine := by
  have hadvance := hmade.advance_eq
  rw [advance_eq] at hadvance
  have hacts := acts_act mechanism round.before.engine.data round.before.world
    ⟨name, round.before.engine.registry, round.before.context⟩ round.before.engine.state
  rw [← Except.ok.inj hadvance]
  exact ⟨(frame_of_acts hacts).2.trans h.storage,
    complete_of_acts hfailing _ h.storage h.complete hacts⟩

theorem equipped_of_dispatches (hfailing : Failing mechanism storage) {limit : Nat}
    {run : Engine.Run State Mode (Pace μ W) W}
    {rounds : List (Engine.Round State Mode (Pace μ W) W)}
    {move : Option (Engine.Move State Mode (Pace μ W) W)}
    {result : Except Violation (Engine.Run State Mode (Pace μ W) W)}
    (hdispatches : Engine.Dispatches (protocol mechanism) name limit run rounds move result)
    (h : Equipped storage run.engine) :
    (∀ round ∈ rounds, Equipped storage round.before.engine) ∧
      ∀ last, result = .ok last → Equipped storage last.engine := by
  induction hdispatches with
  | concluded hmade =>
    refine ⟨List.forall_mem_singleton.mpr h, ?_⟩
    rintro last ⟨⟩
    exact equipped_of_made hfailing hmade h
  | continued hmade _ _ ih =>
    obtain ⟨hrounds, hlast⟩ := ih (equipped_of_made hfailing hmade h)
    exact ⟨List.forall_mem_cons.mpr ⟨h, hrounds⟩, hlast⟩
  | @exhausted run after entry hmoves =>
    have hmove : _ = Except.ok after := (moveTo_eq ..).symm.trans hmoves.moveTo_eq
    have hafter := Except.ok.inj hmove
    refine ⟨List.forall_mem_nil _, ?_⟩
    rintro last ⟨⟩
    rw [← hafter]
    exact ⟨h.storage, complete_idle _⟩
  | broken =>
    refine ⟨List.forall_mem_nil _, ?_⟩
    rintro last ⟨⟩
  | brokenAtLimit =>
    refine ⟨List.forall_mem_nil _, ?_⟩
    rintro last ⟨⟩

/-! ### Runs -/

theorem dispatches_of_step {session session' : Session μ W} {context : Context}
    {output : Option Context}
    (h : session.step mechanism (.command context) = .ok (output, session')) :
    ∃ rounds move last, Engine.Dispatches (protocol mechanism) name session.engine.maxTransitions
        ⟨session.engine, session.world, context, false⟩ rounds move (.ok last) ∧
      session' = ⟨last.engine, last.world⟩ ∧ output = some last.context := by
  obtain ⟨rounds, move, hdispatches⟩ := Engine.loop_dispatches (protocol mechanism) name
    session.engine.maxTransitions ⟨session.engine, session.world, context, false⟩
  have hprocess := Engine.process_eq_loop (protocol mechanism) session.engine session.world context
  have hname : (protocol mechanism).name session.engine.data = name := rfl
  rw [hname] at hprocess
  rw [Session.step, hprocess] at h
  cases hloop : Engine.loop (protocol mechanism) name session.engine.maxTransitions
    ⟨session.engine, session.world, context, false⟩ with
  | error violation =>
    rw [hloop] at h
    cases h
  | ok last =>
    rw [hloop] at h hdispatches
    cases h
    exact ⟨rounds, move, last, hdispatches, rfl, rfl⟩

/-- What holds of an engine between commands. -/
structure AtRest (mechanism : Mechanism μ) (storage : Storage W) (options : Options)
    (maxTransitions : Nat) (engine : Driver μ W) : Prop where
  rests : Rests storage options maxTransitions engine
  equipped : Failing mechanism storage → Equipped storage engine

theorem atRest_of_step {options : Options} {maxTransitions : Nat} {session session' : Session μ W}
    {input : Input} {output : Option Context}
    (h : AtRest mechanism storage options maxTransitions session.engine)
    (hstep : session.step mechanism input = .ok (output, session')) :
    AtRest mechanism storage options maxTransitions session'.engine := by
  refine ⟨rests_of_steps h.rests (Session.steps_of_step hstep), ?_⟩
  intro hfailing
  cases input with
  | command context =>
    obtain ⟨_, _, last, hdispatches, rfl, _⟩ := dispatches_of_step hstep
    obtain ⟨_, hlast⟩ := equipped_of_dispatches hfailing hdispatches (h.equipped hfailing)
    exact hlast last rfl
  | reset =>
    cases Session.steps_of_step hstep
    exact ⟨h.rests.storage, complete_idle _⟩

/-- Whatever commands and resets there were, no keys are left to be announced. If faults are
failures, then there is a selection as long as an authentication is under way, and no transition
comes to the fault of something that should be there. -/
theorem rests_of_run (mechanism : Mechanism μ) (storage : Storage W) (data : μ) (options : Options)
    (maxTransitions : Nat) (world : W) (inputs : List Input) :
    ∃ turns, run (Session.step mechanism)
        (.start mechanism storage data options maxTransitions world) inputs = .ok turns ∧
      ∀ past future, turns = past ++ future →
        let now := stateAfter (.start mechanism storage data options maxTransitions world) past
        now.engine.state ≠ .established ∧
        (Failing mechanism storage →
          (∀ progress, now.engine.state = .authenticating progress →
            now.engine.data.selection ≠ none) ∧
          ∀ turn rest context, future = turn :: rest → turn.input = .command context →
            ∃ rounds move last,
              Engine.Dispatches (protocol mechanism) name maxTransitions
                ⟨turn.before.engine, turn.before.world, context, false⟩ rounds move (.ok last) ∧
              turn.output = some last.context ∧ turn.after = ⟨last.engine, last.world⟩ ∧
              ∀ round ∈ rounds, ∀ fault,
                ¬ Lacks round.before.engine.data (round.before.step name)
                  round.before.engine.state fault) := by
  let Inv : List (Exchange μ W) → Session μ W → Prop := fun _ session =>
    AtRest mechanism storage options maxTransitions session.engine
  have hstart : Inv [] (.start mechanism storage data options maxTransitions world) :=
    ⟨rests_start mechanism storage data options maxTransitions world,
      fun _ => ⟨rfl, complete_idle _⟩⟩
  have hstep : ∀ past session input, Inv past session →
      ∃ output session', session.step mechanism input = .ok (output, session') ∧
        Inv (past ++ [⟨session, input, output, session'⟩]) session' := by
    intro _ session input hrest
    obtain ⟨output, session', hstep, _⟩ := session.steps_step mechanism input
    exact ⟨output, session', hstep, atRest_of_step hrest hstep⟩
  obtain ⟨turns, hrun, hturns⟩ := run_of_invariant hstart hstep inputs
  refine ⟨turns, hrun, ?_⟩
  intro past future hsplit
  obtain ⟨hnow, hnext⟩ := hturns past future hsplit
  refine ⟨hnow.rests.state, ?_⟩
  intro hfailing
  refine ⟨(hnow.equipped hfailing).complete.selection, ?_⟩
  rintro ⟨before, input, output, after⟩ rest context hfuture rfl
  obtain ⟨hbefore, hturn⟩ := hnext _ rest hfuture
  obtain ⟨rounds, move, last, hdispatches, hafter, houtput⟩ := dispatches_of_step hturn
  rw [hbefore.rests.limit] at hdispatches
  obtain ⟨hrounds, _⟩ := equipped_of_dispatches hfailing hdispatches (hbefore.equipped hfailing)
  refine ⟨rounds, move, last, hdispatches, houtput, hafter, ?_⟩
  intro round hround
  exact (hrounds round hround).complete.not_lacks _

/-! ### An authentication under way -/

/-- A mechanism that believes every terminal. -/
def trusting : Mechanism Unit where
  encryptedNonce _ _ password _ := (.ok password, ())
  mapNonce data _ := (.ok data, ())
  keyAgreement key _ := (.ok key, ())
  mutualAuthenticate token _ := (.ok (some ⟨token, ⟨token, token⟩⟩), ())
  reset _ := ()

theorem failing_trusting : Failing trusting Storage.memory := by
  constructor
  case verifying =>
    intro token data fault data' hcall
    cases hcall
  case writing =>
    intro password counter memory fault memory' hwrite
    unfold Storage.memory CardMemory.setRetryCounter at hwrite
    dsimp only at hwrite
    split at hwrite
    · cases hwrite
    · next hfault =>
      cases hwrite
      split at hfault
      · cases hfault
        exact ⟨by decide, by decide⟩
      · split at hfault <;> cases hfault

/-- An access number is selected, a nonce is sent, and then a command comes that has nothing to do
with the authentication. -/
def opening : List Input :=
  [⟨0x00, 0x22, 0xC1, 0xA4, [0x80, 0x0A, 0x04, 0x00, 0x7F, 0x00, 0x07, 0x02, 0x02, 0x04, 0x02, 0x02,
      0x83, 0x01, 0x02], none, false⟩,
    ⟨0x10, 0x86, 0x00, 0x00, [0x7C, 0x00], some 0x100, false⟩,
    ⟨0x00, 0xA4, 0x00, 0x00, [], none, false⟩].map
      fun command => .command (.start (.root (.received 0) command))

def opened : Session Unit CardMemory :=
  .start trusting .memory () .standard 2
    (CardMemory.empty.withPassword .can (.fresh [0x31, 0x32] none))

theorem rests_of_run_opening :
    Failing trusting Storage.memory ∧ ∃ turns,
      run (Session.step trusting) opened opening = .ok turns ∧
      (stateAfter opened turns).engine.state = .authenticating .nonceSent ∧
      (stateAfter opened turns).engine.data.selection ≠ none := by
  have hstate : ((run (Session.step trusting) opened opening).toOption.map
      fun turns => (stateAfter opened turns).engine.state) = some (.authenticating .nonceSent) := by
    decide +kernel
  obtain ⟨turns, hrun, hturns⟩ := rests_of_run trusting .memory () .standard 2
    (CardMemory.empty.withPassword .can (.fresh [0x31, 0x32] none)) opening
  obtain ⟨_, hrests⟩ := hturns turns [] (List.append_nil turns).symm
  obtain ⟨hselection, _⟩ := hrests failing_trusting
  have hrun : run (Session.step trusting) opened opening = .ok turns := hrun
  rw [hrun] at hstate
  have hstate := Option.some.inj hstate
  exact ⟨failing_trusting, turns, hrun, hstate, hselection .nonceSent hstate⟩

end Pace

end SmartCard
