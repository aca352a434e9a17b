import SmartCard.Proofs.Pace.Session

/-!
# Announced keys

The keys of a session are announced in a transition of their own, from what the transition before it
left in the protocol. They are announced for a token that was verified in the same command, and for
nothing else.
-/

namespace SmartCard

namespace Context

variable (context : Context) (initiator message : String) (response : Response)
  (propagation : Propagation)

@[simp] theorem announced_respond :
    (context.respond initiator message response).announced = context.announced := by
  simp [respond, record, Delta.ofResponse, Delta.accepted, Delta.empty]

@[simp] theorem announced_propagate :
    (context.propagate initiator message propagation).announced =
      context.announced ++ [propagation] := by
  simp [propagate, record, Delta.propagate, Delta.accepted, Delta.empty]

end Context

namespace Pace

variable {μ V W : Type}

/-! ### The access number -/

/-- A token was verified for the access number since the last reset of the session. -/
def CanVerified (past : List (Exchange (μ × List Call) W)) : Prop :=
  ∃ earlier turn later, past = earlier ++ turn :: later ∧
    (∀ other ∈ later, other.input ≠ .reset) ∧
    (∃ token authentication, .mutualAuthenticate token (.ok (some authentication)) ∈ made turn) ∧
    ∃ objects, lastAccepted earlier = some objects ∧
      content? passwordTag objects = some [PasswordRef.can.reference]

theorem CanVerified.concat {past : List (Exchange (μ × List Call) W)}
    {turn : Exchange (μ × List Call) W} (h : CanVerified past) (hinput : turn.input ≠ .reset) :
    CanVerified (past ++ [turn]) := by
  obtain ⟨earlier, success, later, rfl, hlater, hverified⟩ := h
  refine ⟨earlier, success, later ++ [turn], by simp, ?_, hverified⟩
  intro other hother
  rcases List.mem_append.mp hother with hother | hother
  · exact hlater other hother
  · rw [List.mem_singleton.mp hother]
    exact hinput

/-- What lets a suspended identification number be used is a token for the access number. -/
def Resumes (past : List (Exchange (μ × List Call) W)) (session : Session (μ × List Call) W) :
    Prop :=
  session.engine.data.canAuthenticated = true → CanVerified past

variable {mechanism : Mechanism μ} {storage : Storage W} {access : Storage V} {options : Options}
  {maxTransitions : Nat}

theorem resumes_of_steps {past : List (Exchange (μ × List Call) V)}
    {session session' : Session (μ × List Call) V} {input : Input} {output : Option Context}
    (hsteady : Steady access options maxTransitions past session) (hresumes : Resumes past session)
    (hsteps : Session.Steps mechanism.recorded session input output session') :
    Resumes (past ++ [⟨session, input, output, session'⟩]) session' := by
  intro hcan
  cases hsteps with
  | reset => cases hcan
  | @command context context' engine' world' hanswers =>
    rcases resumed_of_answers hanswers hcan with
      hcan | ⟨token, authentication, selection, hcalls, hselection, hpassword⟩
    · exact (hresumes hcan).concat nofun
    · obtain ⟨objects, hlast, hobjects⟩ := hsteady.selected selection hselection
      obtain ⟨_, _, hreference, _⟩ := content_of_ofObjects hobjects
      rw [hpassword] at hreference
      refine ⟨past, ⟨session, .command context, some context', ⟨engine', world'⟩⟩, [], rfl,
        by simp, ⟨token, authentication, ?_⟩, objects, hlast, hreference⟩
      rw [made_eq hcalls]
      exact List.mem_singleton_self _

/-! ### Silence -/

/-- Nothing is announced but that a password was rejected. -/
def Silent (context : Context) : Prop :=
  ∀ propagation ∈ context.announced, ∃ password,
    propagation = .event (.authenticationFailed password)

theorem silent_of_eq_nil {context : Context} (h : context.announced = []) : Silent context := by
  intro propagation hmem
  rw [h] at hmem
  cases hmem

theorem silent_fail (fault : Fault) (pace : Pace μ W) (world : W) (handle : Handle) :
    Silent ((Outcome.fail fault pace world).answered (.start handle)) := by
  apply silent_of_eq_nil
  simp [Outcome.answered, Outcome.fail, Context.start]

theorem silent_answerStep (pace : Pace μ W) (world : W) (message : String) (inner : Tag)
    (next : Progress) (result : Except Fault Bytes × μ) (handle : Handle) :
    Silent ((pace.answerStep world message inner next result).answered (.start handle)) := by
  obtain ⟨fault | data, mechanism⟩ := result
  · exact silent_fail _ _ _ handle
  · apply silent_of_eq_nil
    simp [answerStep, Outcome.answered, Note.recordIn, Context.start]

/-- A command that is done after one transition announces no keys. -/
theorem silent_of_acts {pace : Pace μ W} {world : W} {step : Step} {state : State}
    {outcome : Outcome μ W} (handle : Handle) (hacts : Acts mechanism pace world step state outcome)
    (hstops : outcome.stops = true) (hstate : state ≠ .established) :
    Silent (outcome.answered (.start handle)) := by
  cases hacts with
  | announced | unannounced => exact absurd rfl hstate
  | selected =>
    apply silent_of_eq_nil
    simp [Outcome.answered, Note.recordIn, Context.start]
  | unmatched => exact silent_of_eq_nil rfl
  | sentNonce | mappedNonce | agreedOnKey => exact silent_answerStep _ _ _ _ _ _ handle
  | verified hverifies =>
    cases hverifies with
    | @rejected token selection =>
      intro propagation hmem
      refine ⟨selection.password, ?_⟩
      simpa [Outcome.answered, Note.recordIn, Context.start] using hmem
    | accepted => simp [Outcome.stops] at hstops
    | _ => exact silent_fail _ _ _ handle
  | _ => exact silent_fail _ _ _ handle

/-- A right token that is lost, although another transition could have followed, is lost to a write
that failed. -/
theorem unrestored_of_acts {pace : Pace (μ × List Call) (W × List Write)} {world : W × List Write}
    {step : Step} {state : State} {outcome : Outcome (μ × List Call) (W × List Write)}
    {token : Bytes} {authentication : Authentication}
    (hstorage : pace.storage = some storage.recorded)
    (hacts : Acts mechanism.recorded pace world step state outcome)
    (hstops : outcome.stops = true)
    (hmem : .mutualAuthenticate token (.ok (some authentication)) ∈
      outcome.pace.calls.drop pace.calls.length) :
    ∃ write, outcome.world.2 = world.2 ++ [write] ∧ write.result.toBool = false := by
  rcases verifies_or_prepares hacts with ⟨_, hverifies⟩ | ⟨_, _, made, hcalls, hprepares⟩
  · cases hverifies with
    | unverified _ hcall | rejected _ hcall | unspent _ hcall =>
      simp [calls, calls_of_mutualAuthenticate hcall] at hmem
    | accepted => simp [Outcome.stops] at hstops
    | unrestored hpresents _ hrestored =>
      obtain ⟨_, hread⟩ := readPassword_recorded hstorage hpresents.read
      rcases written_of_restoreCounter hstorage hrestored with ⟨_, hok⟩ | ⟨counter, hwritten⟩
      · cases hok
      · rw [hread] at hwritten
        exact ⟨_, hwritten, rfl⟩
  · rw [hcalls, List.drop_left] at hmem
    exact (hprepares _ hmem).elim

/-! ### Announcement -/

/-- A token was verified in a turn, for the last selection that was accepted and with a password
that could be used, and this is what the turn announces and answers. -/
structure Verified (storage : Storage W)
    (past : List (Exchange (μ × List Call) (W × List Write)))
    (turn : Exchange (μ × List Call) (W × List Write)) (handle : Handle) (answer : Context)
    (token : Bytes) (authentication : Authentication) (objects : List Object) (oid : Bytes)
    (password : PasswordRef) (stored : PasswordState) : Prop where
  called : made turn = [.mutualAuthenticate token (.ok (some authentication))]
  presented : ∃ fields, Object.decodeAll handle.command.data = .ok fields ∧
    (Object.atPath? [authenticationDataTag, terminalTokenTag] fields).bind Object.bytes? =
      some token
  accepted : lastAccepted past = some objects
  algorithm : content? algorithmTag objects = some oid
  reference : content? passwordTag objects = some [password.reference]
  read : (storage.password password turn.before.world.1).1 = some stored
  unblocked : stored.isBlocked = false
  resumed : password = .pin → stored.isSuspended = true → CanVerified past
  keys : answer.propagations .secureMessaging = [.sessionKeys authentication.keys]
  mechanism : answer.propagations .securityMechanism =
    [.mechanism (.pace password oid ((Object.atPath? [chatTag] objects).map Object.encode))]
  response : answer.response = some (.withData
    [.constructed authenticationDataTag [.primitive cardTokenTag authentication.token]] .success)

theorem presented_of_authenticationData {step : Step} {inner : Tag} {data : Bytes}
    (h : authenticationData step inner = .ok data) :
    ∃ fields, Object.decodeAll step.command.command.data = .ok fields ∧
      (Object.atPath? [authenticationDataTag, inner] fields).bind Object.bytes? = some data := by
  unfold authenticationData at h
  split at h
  · cases h
  · next fields hdecode =>
    split at h
    · next hfound =>
      cases h
      exact ⟨fields, hdecode, hfound⟩
    · cases h

theorem announced_announcedIn (handle : Handle) (authentication : Authentication)
    (selection : Selection) (keys : SessionKeys) :
    (announcedIn (acknowledged (.start handle) authentication) selection keys).announced =
      [.mechanism (.pace selection.password selection.oid (selection.chat.map (·.encoded))),
        .sessionKeys keys, .event .secureMessagingEstablished] := by
  simp [announcedIn, acknowledged, Context.start]

/-- What one command announces, given what holds before it. -/
structure Announcement (storage : Storage W) (maxTransitions : Nat)
    (past : List (Exchange (μ × List Call) (W × List Write)))
    (turn : Exchange (μ × List Call) (W × List Write)) (handle : Handle) (answer : Context) :
    Prop where
  keys : (∃ keys, .sessionKeys keys ∈ answer.announced) ↔
    .event .secureMessagingEstablished ∈ answer.announced
  mechanism : (∃ password oid chat, .mechanism (.pace password oid chat) ∈ answer.announced) ↔
    .event .secureMessagingEstablished ∈ answer.announced
  keysOnce : (answer.propagations .secureMessaging).length ≤ 1
  mechanismOnce : (answer.propagations .securityMechanism).length ≤ 1
  eventOnce : answer.announced.count (.event .secureMessagingEstablished) ≤ 1
  verified : .event .secureMessagingEstablished ∈ answer.announced →
    ∃ token authentication objects oid password stored,
      Verified storage past turn handle answer token authentication objects oid password stored
  complete : 2 ≤ maxTransitions →
    (∃ token authentication,
      .mutualAuthenticate token (.ok (some authentication)) ∈ made turn) →
    (∀ write ∈ written turn, write.result.toBool = true) →
    .event .secureMessagingEstablished ∈ answer.announced

/-- A command that announces no keys may only do so if no right token was lost. -/
theorem announcement_of_silent {past : List (Exchange (μ × List Call) (W × List Write))}
    {turn : Exchange (μ × List Call) (W × List Write)} {handle : Handle} {answer : Context}
    (hsilent : Silent answer)
    (hcomplete : 2 ≤ maxTransitions → ∀ token authentication,
      .mutualAuthenticate token (.ok (some authentication)) ∈ made turn →
      ∃ write ∈ written turn, write.result.toBool = false) :
    Announcement storage maxTransitions past turn handle answer := by
  have hevent : .event .secureMessagingEstablished ∉ answer.announced := by
    intro hmem
    obtain ⟨password, hpassword⟩ := hsilent _ hmem
    cases hpassword
  have hempty : ∀ kind, kind ≠ .securityEvent → answer.propagations kind = [] := by
    intro kind hkind
    unfold Context.propagations
    rw [List.filter_eq_nil_iff]
    intro propagation hmem
    obtain ⟨password, rfl⟩ := hsilent propagation hmem
    simp [Propagation.kind, hkind.symm]
  refine ⟨⟨?_, (absurd · hevent)⟩, ⟨?_, (absurd · hevent)⟩, ?_, ?_, ?_, (absurd · hevent), ?_⟩
  · rintro ⟨keys, hmem⟩
    obtain ⟨password, hpassword⟩ := hsilent _ hmem
    cases hpassword
  · rintro ⟨password, oid, chat, hmem⟩
    obtain ⟨other, hother⟩ := hsilent _ hmem
    cases hother
  · rw [hempty .secureMessaging nofun]
    exact Nat.zero_le _
  · rw [hempty .securityMechanism nofun]
    exact Nat.zero_le _
  · rw [List.count_eq_zero.mpr hevent]
    exact Nat.zero_le _
  · rintro hlimit ⟨token, authentication, hmem⟩ hwritten
    obtain ⟨write, hwrite, hfailed⟩ := hcomplete hlimit token authentication hmem
    rw [hwritten write hwrite] at hfailed
    cases hfailed

theorem verified_of_grants {past : List (Exchange (μ × List Call) (W × List Write))}
    {session session' : Session (μ × List Call) (W × List Write)} {handle : Handle}
    {token : Bytes} {selection : Selection} {stored : PasswordState}
    {authentication : Authentication} {data : μ × List Call} {read world' : W × List Write}
    {answer : Context}
    (hsteady : Steady storage.recorded options maxTransitions past session)
    (hresumes : Resumes past session)
    (hgrants : Grants mechanism.recorded session.engine.data session.world
      ⟨name, session.engine.registry, .start handle⟩ token selection stored authentication data
      read world')
    (hcalls : session'.engine.data.calls = data.2)
    (hanswer : answer = announcedIn (acknowledged (.start handle) authentication) selection
      authentication.keys) :
    ∃ token authentication objects oid password stored,
      Verified storage past ⟨session, .command (.start handle), some answer, session'⟩ handle answer
        token authentication objects oid password stored := by
  obtain ⟨hpresents, hcall, _⟩ := hgrants
  obtain ⟨objects, hlast, hobjects⟩ := hsteady.selected selection hpresents.selected
  obtain ⟨hoid, _, hreference, hchat⟩ := content_of_ofObjects hobjects
  obtain ⟨hread, _⟩ := readPassword_recorded hsteady.rests.storage hpresents.read
  have hannounced := announced_announcedIn handle authentication selection authentication.keys
  rw [← hanswer] at hannounced
  refine ⟨token, authentication, objects, selection.oid, selection.password, stored, ?_⟩
  constructor
  case called => exact made_eq (hcalls.trans (calls_of_mutualAuthenticate hcall))
  case presented => exact presented_of_authenticationData hpresents.presented
  case accepted => exact hlast
  case algorithm => exact hoid
  case reference => exact hreference
  case read => rw [hread]
  case unblocked => exact hpresents.unblocked
  case resumed =>
    intro hpin hsuspended
    have hresumed := hpresents.resumed
    rw [isSuspended, hpin, hsuspended] at hresumed
    exact hresumes (by simpa using hresumed)
  case keys =>
    rw [Context.propagations, hannounced]
    rfl
  case mechanism =>
    rw [Context.propagations, hannounced, hchat]
    rfl
  case response =>
    rw [hanswer]
    rfl

theorem announcement_of_steps {past : List (Exchange (μ × List Call) (W × List Write))}
    {session session' : Session (μ × List Call) (W × List Write)} {handle : Handle}
    {output : Option Context}
    (hsteady : Steady storage.recorded options maxTransitions past session)
    (hresumes : Resumes past session)
    (hsteps : Session.Steps mechanism.recorded session (.command (.start handle)) output session') :
    ∃ answer, output = some answer ∧ Announcement storage maxTransitions past
      ⟨session, .command (.start handle), output, session'⟩ handle answer := by
  obtain ⟨hanswers⟩ := hsteps
  refine ⟨_, rfl, ?_⟩
  cases hanswers with
  | untouched =>
    refine announcement_of_silent (silent_of_eq_nil (by simp [exhausted, Context.start])) ?_
    intro _ token authentication hmem
    rw [made_eq (List.append_nil _).symm] at hmem
    cases hmem
  | settled _ hacts hstops =>
    refine announcement_of_silent (silent_of_acts handle hacts hstops hsteady.rests.state) ?_
    intro _ token authentication hmem
    obtain ⟨write, hwritten, hfailed⟩ :=
      unrestored_of_acts hsteady.rests.storage hacts hstops hmem
    refine ⟨write, ?_, hfailed⟩
    rw [written_eq hwritten]
    exact List.mem_singleton_self write
  | unannounced hlimit =>
    refine announcement_of_silent
      (silent_of_eq_nil (by simp [exhausted, acknowledged, Context.start])) ?_
    intro hmany
    rw [hsteady.rests.limit] at hlimit
    omega
  | @announced _ selection _ authentication _ _ _ _ _ hgrants =>
    have hannounced := announced_announcedIn handle authentication selection authentication.keys
    have hevent : .event .secureMessagingEstablished ∈ (announcedIn
        (acknowledged (.start handle) authentication) selection authentication.keys).announced := by
      rw [hannounced]
      simp
    constructor
    case keys =>
      refine ⟨fun _ => hevent, fun _ => ⟨authentication.keys, ?_⟩⟩
      rw [hannounced]
      simp
    case mechanism =>
      refine ⟨fun _ => hevent, fun _ => ⟨selection.password, selection.oid,
        selection.chat.map (·.encoded), ?_⟩⟩
      rw [hannounced]
      exact List.mem_cons_self
    case keysOnce =>
      rw [Context.propagations, hannounced]
      exact Nat.le_refl 1
    case mechanismOnce =>
      rw [Context.propagations, hannounced]
      exact Nat.le_refl 1
    case eventOnce =>
      rw [hannounced]
      simp
    case verified => exact fun _ => verified_of_grants hsteady hresumes hgrants rfl rfl
    case complete => exact fun _ _ _ => hevent

/-- What the announcement of a command depends on. -/
structure Announcing (storage : Storage W) (options : Options) (maxTransitions : Nat)
    (past : List (Exchange (μ × List Call) (W × List Write)))
    (session : Session (μ × List Call) (W × List Write)) : Prop where
  steady : Steady storage.recorded options maxTransitions past session
  resumes : Resumes past session

/-- Whatever the mechanism and the card state answer, a command announces keys, the mechanism and
secure messaging together or not at all. It does so for a token that it verified itself, and, unless
the limit or a write that fails is in the way, for each of these. -/
theorem announcement_of_run (mechanism : Mechanism μ) (storage : Storage W) (data : μ)
    (options : Options) (maxTransitions : Nat) (world : W) (inputs : List Input) :
    ∃ turns, run (Session.step mechanism.recorded)
        (.recorded mechanism storage data options maxTransitions world) inputs = .ok turns ∧
      ∀ past turn future handle, turns = past ++ turn :: future →
        turn.input = .command (.start handle) →
        ∃ answer, turn.output = some answer ∧
          Announcement storage maxTransitions past turn handle answer := by
  have hstart : Announcing storage options maxTransitions []
      (.recorded mechanism storage data options maxTransitions world) :=
    ⟨steady_start .., nofun⟩
  have hstep : ∀ past session input, Announcing storage options maxTransitions past session →
      ∃ output session', session.step mechanism.recorded input = .ok (output, session') ∧
        Announcing storage options maxTransitions (past ++ [⟨session, input, output, session'⟩])
          session' := by
    rintro past session input ⟨hsteady, hresumes⟩
    obtain ⟨output, session', hstep, hsteps⟩ := session.steps_step mechanism.recorded input
    exact ⟨output, session', hstep, steady_of_steps hsteady hsteps,
      resumes_of_steps hsteady hresumes hsteps⟩
  obtain ⟨turns, hrun, hturns⟩ := run_of_invariant hstart hstep inputs
  refine ⟨turns, hrun, ?_⟩
  rintro past ⟨before, input, output, after⟩ future handle hsplit rfl
  obtain ⟨_, hnext⟩ := hturns past (_ :: future) hsplit
  obtain ⟨⟨hsteady, hresumes⟩, hturn⟩ := hnext _ future rfl
  exact announcement_of_steps hsteady hresumes (Session.steps_of_step hturn)

end Pace

end SmartCard
