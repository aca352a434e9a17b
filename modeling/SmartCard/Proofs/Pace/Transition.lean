import Mathlib.Tactic.Common
import SmartCard.Pace.Basic
import SmartCard.Proofs.Shape.Violation

/-!
# What a transition of PACE can do

`Acts` lists everything that one transition can come to, with the guards under which it does.
Faults that are raised before the mechanism is called are errors, whatever the card state and the
mechanism are; only the mechanism and a failing write can raise others. Up to there the card state
is only read.
-/

namespace SmartCard.Pace

variable {μ W : Type}

/-! ### Faults before the mechanism is called -/

theorem status_of_algorithmOf {options : Options} {objects : List Object} {fault : Fault}
    (h : Selection.algorithmOf options objects = .error fault) : fault.status = .wrongData := by
  unfold Selection.algorithmOf at h
  repeat' split at h
  all_goals cases h <;> rfl

theorem status_of_passwordOf {objects : List Object} {fault : Fault}
    (h : Selection.passwordOf objects = .error fault) :
    fault.status = .wrongData ∨ fault.status = .referencedDataNotFound := by
  unfold Selection.passwordOf at h
  split at h
  · split at h
    · cases h
    · cases h
      exact .inr rfl
  · cases h
    exact .inl rfl

theorem status_of_checkDomainParameters {options : Options} {objects : List Object} {fault : Fault}
    (h : Selection.checkDomainParameters options objects = .error fault) :
    fault.status = .referencedDataNotFound := by
  unfold Selection.checkDomainParameters at h
  repeat' split at h
  all_goals cases h <;> rfl

theorem status_of_ofObject {object : Object} {fault : Fault}
    (h : Chat.ofObject object = .error fault) : fault.status = .wrongData := by
  unfold Chat.ofObject at h
  dsimp only at h
  split at h
  · cases h
  · cases h
    rfl

theorem ofObject_of_chatOf {objects : List Object} {fault : Fault}
    (h : Selection.chatOf objects = .error fault) :
    ∃ object, Chat.ofObject object = .error fault := by
  unfold Selection.chatOf at h
  split at h
  · cases h
  · next object _ =>
    split at h
    · cases h
    · next hchat =>
      cases h
      exact ⟨object, hchat⟩

/-- What data objects select, check by check. -/
theorem ofObjects_eq (options : Options) (objects : List Object) :
    Selection.ofObjects options objects =
      match Selection.algorithmOf options objects with
      | .error fault => .error fault
      | .ok (oid, algorithm) =>
        match Selection.passwordOf objects with
        | .error fault => .error fault
        | .ok password =>
          match Selection.checkDomainParameters options objects with
          | .error fault => .error fault
          | .ok () =>
            match Selection.chatOf objects with
            | .error fault => .error fault
            | .ok chat => .ok ⟨oid, algorithm, password, chat⟩ := by
  unfold Selection.ofObjects
  cases Selection.algorithmOf options objects with
  | error fault => rfl
  | ok named =>
    cases Selection.passwordOf objects with
    | error fault => rfl
    | ok password =>
      cases Selection.checkDomainParameters options objects with
      | error fault => rfl
      | ok =>
        cases Selection.chatOf objects <;> rfl

/-- A fault in the data objects of a selection is raised by one of the checks. -/
theorem checks_of_ofObjects {options : Options} {objects : List Object} {fault : Fault}
    (h : Selection.ofObjects options objects = .error fault) :
    Selection.algorithmOf options objects = .error fault ∨
      Selection.passwordOf objects = .error fault ∨
      Selection.checkDomainParameters options objects = .error fault ∨
      ∃ object, Chat.ofObject object = .error fault := by
  rw [ofObjects_eq] at h
  split at h
  · next halgorithm =>
    cases h
    exact .inl halgorithm
  split at h
  · next hpassword =>
    cases h
    exact .inr (.inl hpassword)
  split at h
  · next hdomain =>
    cases h
    exact .inr (.inr (.inl hdomain))
  split at h
  · next hchat =>
    cases h
    exact .inr (.inr (.inr (ofObject_of_chatOf hchat)))
  · cases h

theorem status_of_ofObjects {options : Options} {objects : List Object} {fault : Fault}
    (h : Selection.ofObjects options objects = .error fault) :
    fault.status = .wrongData ∨ fault.status = .referencedDataNotFound := by
  rcases checks_of_ofObjects h with halgorithm | hpassword | hdomain | ⟨object, hchat⟩
  · exact .inl (status_of_algorithmOf halgorithm)
  · exact status_of_passwordOf hpassword
  · exact .inr (status_of_checkDomainParameters hdomain)
  · exact .inl (status_of_ofObject hchat)

theorem isError_of_readSelection {options : Options} {step : Step} {fault : Fault}
    (h : readSelection options step = .error fault) : fault.status.isError = true := by
  unfold readSelection at h
  split at h
  · cases h
    rfl
  · next verdict hverdict =>
    split at h
    · split at h
      · cases h
        rfl
      · rcases status_of_ofObjects h with hstatus | hstatus <;> rw [hstatus] <;> rfl
    · next hmatch =>
      obtain ⟨shape, _, rfl⟩ := Option.map_eq_some_iff.mp hverdict
      cases h
      exact Shape.isError_verdict (by simpa using hmatch)

theorem isError_of_readPassword {pace : Pace μ W} {password : PasswordRef} {world world' : W}
    {fault : Fault} (h : pace.readPassword password world = (.error fault, world')) :
    fault.status.isError = true := by
  unfold readPassword at h
  repeat' split at h
  all_goals cases h <;> rfl

theorem isError_of_checkTrust {pace : Pace μ W} {chat : Option Chat} {world world' : W}
    {fault : Fault} (h : pace.checkTrust chat world = (.error fault, world')) :
    fault.status.isError = true := by
  unfold checkTrust at h
  repeat' split at h
  all_goals cases h <;> rfl

theorem isError_of_authenticationData {step : Step} {inner : Tag} {fault : Fault}
    (h : authenticationData step inner = .error fault) : fault.status.isError = true := by
  unfold authenticationData at h
  repeat' split at h
  all_goals cases h <;> rfl

/-! ### Reading the card state -/

/-- What reading passwords and trust points makes of the card state. -/
inductive Reads (storage : Option (Storage W)) : W → W → Prop
  | refl (world : W) : Reads storage world world
  | password {access : Storage W} {world world' : W} (hstorage : storage = some access)
      (password : PasswordRef) (h : Reads storage world world') :
      Reads storage world (access.password password world').2
  | trustPoint {access : Storage W} {world world' : W} (hstorage : storage = some access)
      (terminal : TerminalType) (h : Reads storage world world') :
      Reads storage world (access.trustPoint terminal world').2

theorem reads_of_readPassword {pace : Pace μ W} {password : PasswordRef}
    {world world' world'' : W} {result : Except Fault PasswordState}
    (hreads : Reads pace.storage world world')
    (h : pace.readPassword password world' = (result, world'')) :
    Reads pace.storage world world'' := by
  unfold readPassword at h
  split at h
  · cases h
    exact hreads
  · next access hstorage =>
    have hstep := Reads.password hstorage password hreads
    split at h
    all_goals
      next hread =>
        rw [hread] at hstep
        cases h
        exact hstep

theorem reads_of_checkTrust {pace : Pace μ W} {chat : Option Chat} {world world' world'' : W}
    {result : Except Fault Unit} (hreads : Reads pace.storage world world')
    (h : pace.checkTrust chat world' = (result, world'')) :
    Reads pace.storage world world'' := by
  unfold checkTrust at h
  split at h
  · cases h
    exact hreads
  · next chat =>
    split at h
    · cases h
      exact hreads
    · next access hstorage =>
      have hstep := Reads.trustPoint hstorage chat.terminal hreads
      split at h
      all_goals
        next hread =>
          rw [hread] at hstep
          cases h
          exact hstep

/-- The shape of the command that comes next in an authentication. -/
def Progress.due : Progress → String
  | setAtProcessed => gaEncryptedNonce
  | nonceSent => gaMapNonce
  | nonceMapped => gaKeyAgreement
  | keyAgreed => gaMutualAuthenticate

/-! ### Verification -/

/-- Stores that an attempt was used up, if attempts are counted. -/
def spendAttempt (pace : Pace μ W) (password : PasswordRef) (stored : PasswordState) (world : W) :
    Except Fault Unit × W :=
  match stored.retryCounter with
  | none => (.ok (), world)
  | some counter => pace.writeCounter password (if counter = 0 then 0 else counter - 1) world

/-- The answer to a token that was rejected. -/
def rejectionStatus (stored : PasswordState) : StatusWord :=
  match stored.retryCounter with
  | none => .verificationFailed
  | some counter => .retryCounter (if counter = 0 then 0 else counter - 1)

theorem reject_eq (pace : Pace μ W) (world : W) (password : PasswordRef) (stored : PasswordState) :
    pace.reject world password stored =
      match pace.spendAttempt password stored world with
      | (.error fault, world) => .fail fault pace world
      | (.ok (), world) =>
        ⟨.ok (some .idle), pace, world,
          [.propagation "authentication failed" (.event (.authenticationFailed password)),
            .response "authentication token rejected" (.ofStatus (rejectionStatus stored))],
          true⟩ := by
  unfold reject spendAttempt rejectionStatus
  cases stored.retryCounter with
  | none => rfl
  | some counter => rfl

/-- The end of the last step, for a token that may be presented. -/
def verify (mechanism : Mechanism μ) (pace : Pace μ W) (world : W) (token : Bytes)
    (selection : Selection) (stored : PasswordState) : Outcome μ W :=
  match mechanism.mutualAuthenticate token pace.mechanism with
  | (.error fault, mechanism) => .fail fault { pace with mechanism } world
  | (.ok none, mechanism) => reject { pace with mechanism } world selection.password stored
  | (.ok (some authentication), mechanism) =>
    accept { pace with mechanism } world selection stored authentication

/-- The checks of the last step, which look at nothing that taking the selection changes. -/
theorem mutualAuthenticate_eq (mechanism : Mechanism μ) (pace : Pace μ W) (world : W)
    (step : Step) :
    pace.mutualAuthenticate mechanism world step =
      match authenticationData step terminalTokenTag with
      | .error fault => .fail fault pace world
      | .ok token =>
        match pace.selection with
        | none => .fail outOfSequence pace world
        | some selection =>
          match pace.readPassword selection.password world with
          | (.error fault, world) => .fail fault { pace with selection := none } world
          | (.ok stored, world) =>
            if stored.isBlocked then
              .fail ⟨.authenticationMethodBlocked, selection.password.name ++ " blocked"⟩
                { pace with selection := none } world
            else if pace.isSuspended selection.password stored then
              .fail ⟨.conditionsOfUseNotSatisfied, "PIN suspended, CAN required"⟩
                { pace with selection := none } world
            else
              verify mechanism { pace with selection := none } world token selection stored :=
  rfl

/-- PACE after a token was accepted, with the keys to be announced. -/
def granted (pace : Pace μ W) (data : μ) (selection : Selection) (authentication : Authentication) :
    Pace μ W :=
  { pace with
    mechanism := data
    selection := none
    canAuthenticated := selection.password = .can || pace.canAuthenticated
    established := some ⟨selection, authentication.keys⟩ }

/-- A token is presented for a password that may be used. -/
structure Presents (pace : Pace μ W) (world : W) (step : Step) (token : Bytes)
    (selection : Selection) (stored : PasswordState) (world' : W) : Prop where
  shape : step.hasShape mseSetAt = false
  due : step.hasShape gaMutualAuthenticate = true
  presented : authenticationData step terminalTokenTag = .ok token
  selected : pace.selection = some selection
  read : pace.readPassword selection.password world = (.ok stored, world')
  unblocked : stored.isBlocked = false
  resumed : pace.isSuspended selection.password stored = false

/-- Everything that a token that is presented can come to. -/
inductive Verifies (mechanism : Mechanism μ) (pace : Pace μ W) (world : W) (step : Step) :
    Outcome μ W → Prop
  | unverified {token : Bytes} {selection : Selection} {stored : PasswordState} {world' : W}
      {fault : Fault} {data : μ}
      (hpresents : Presents pace world step token selection stored world')
      (hcall : mechanism.mutualAuthenticate token pace.mechanism = (.error fault, data)) :
      Verifies mechanism pace world step
        (.fail fault { pace with selection := none, mechanism := data } world')
  | rejected {token : Bytes} {selection : Selection} {stored : PasswordState} {read world' : W}
      {data : μ} (hpresents : Presents pace world step token selection stored read)
      (hcall : mechanism.mutualAuthenticate token pace.mechanism = (.ok none, data))
      (hspent : pace.spendAttempt selection.password stored read = (.ok (), world')) :
      Verifies mechanism pace world step
        ⟨.ok (some .idle), { pace with selection := none, mechanism := data }, world',
          [.propagation "authentication failed" (.event (.authenticationFailed selection.password)),
            .response "authentication token rejected" (.ofStatus (rejectionStatus stored))], true⟩
  /-- A token is rejected, but the attempt that it cost could not be stored. -/
  | unspent {token : Bytes} {selection : Selection} {stored : PasswordState} {read world' : W}
      {data : μ} {fault : Fault} (hpresents : Presents pace world step token selection stored read)
      (hcall : mechanism.mutualAuthenticate token pace.mechanism = (.ok none, data))
      (hspent : pace.spendAttempt selection.password stored read = (.error fault, world')) :
      Verifies mechanism pace world step
        (.fail fault { pace with selection := none, mechanism := data } world')
  | accepted {token : Bytes} {selection : Selection} {stored : PasswordState} {read world' : W}
      {authentication : Authentication} {data : μ}
      (hpresents : Presents pace world step token selection stored read)
      (hcall : mechanism.mutualAuthenticate token pace.mechanism =
        (.ok (some authentication), data))
      (hrestored : pace.restoreCounter selection.password stored read = (.ok (), world')) :
      Verifies mechanism pace world step
        ⟨.ok (some .established), granted pace data selection authentication, world',
          [.response "authentication token"
            (authenticationResponse cardTokenTag authentication.token)], false⟩
  /-- A token is right, but the attempts could not be restored. -/
  | unrestored {token : Bytes} {selection : Selection} {stored : PasswordState} {read world' : W}
      {authentication : Authentication} {data : μ} {fault : Fault}
      (hpresents : Presents pace world step token selection stored read)
      (hcall : mechanism.mutualAuthenticate token pace.mechanism =
        (.ok (some authentication), data))
      (hrestored : pace.restoreCounter selection.password stored read = (.error fault, world')) :
      Verifies mechanism pace world step
        (.fail fault { pace with selection := none, mechanism := data } world')

/-! ### One transition -/

/-- Everything that a transition can come to. -/
inductive Acts (mechanism : Mechanism μ) (pace : Pace μ W) (world : W) (step : Step) :
    State → Outcome μ W → Prop
  /-- The keys of an authentication are announced. -/
  | announced {established : Established} (hestablished : pace.established = some established) :
      Acts mechanism pace world step .established (pace.announce world)
  | unannounced (hestablished : pace.established = none) :
      Acts mechanism pace world step .established (pace.announce world)
  /-- A selection is refused, and the authentication under way is forgotten. -/
  | refused {state : State} {fault : Fault} {world' : W} (hstate : state ≠ .established)
      (hshape : step.hasShape mseSetAt = true) (herror : fault.status.isError = true)
      (hreads : Reads pace.storage world world') :
      Acts mechanism pace world step state (.fail fault (pace.restart mechanism) world')
  | selected {state : State} {selection : Selection} {stored : PasswordState} {world' world'' : W}
      (hstate : state ≠ .established) (hshape : step.hasShape mseSetAt = true)
      (hread : readSelection pace.options step = .ok selection)
      (hpassword : pace.readPassword selection.password world = (.ok stored, world'))
      (htrust : pace.checkTrust selection.chat world' = (.ok (), world'')) :
      Acts mechanism pace world step state
        ⟨.ok (some (.authenticating .setAtProcessed)),
          { pace.restart mechanism with selection := some selection }, world'',
          [.response "Set AT" (.ofStatus (pace.selectionStatus selection.password stored))], true⟩
  | outOfSequence {state : State} (hstate : state ≠ .established)
      (hshape : step.hasShape mseSetAt = false)
      (hdue : ∀ progress, state = .authenticating progress → step.hasShape progress.due = false)
      (hstep : step.hasShape generalAuthenticate = true) :
      Acts mechanism pace world step state (.fail outOfSequence pace world)
  | unmatched {state : State} (hstate : state ≠ .established)
      (hshape : step.hasShape mseSetAt = false)
      (hdue : ∀ progress, state = .authenticating progress → step.hasShape progress.due = false)
      (hstep : step.hasShape generalAuthenticate = false) :
      Acts mechanism pace world step state (.unmatched pace world)
  /-- A step that is due ends before it takes the selection or calls the mechanism. -/
  | halted {progress : Progress} {fault : Fault} {world' : W}
      (hshape : step.hasShape mseSetAt = false) (hdue : step.hasShape progress.due = true)
      (herror : fault.status.isError = true) (hreads : Reads pace.storage world world') :
      Acts mechanism pace world step (.authenticating progress) (.fail fault pace world')
  | sentNonce {selection : Selection} {stored : PasswordState} {world' : W}
      (hshape : step.hasShape mseSetAt = false)
      (hdue : step.hasShape Progress.setAtProcessed.due = true)
      (hselection : pace.selection = some selection)
      (hpassword : pace.readPassword selection.password world = (.ok stored, world')) :
      Acts mechanism pace world step (.authenticating .setAtProcessed)
        (pace.answerStep world' "encrypted nonce" encryptedNonceTag .nonceSent
          (mechanism.encryptedNonce selection.algorithm pace.options.domainParameters stored.secret
            pace.mechanism))
  | mappedNonce {data : Bytes} (hshape : step.hasShape mseSetAt = false)
      (hdue : step.hasShape Progress.nonceSent.due = true)
      (hdata : authenticationData step terminalMappingTag = .ok data) :
      Acts mechanism pace world step (.authenticating .nonceSent)
        (pace.answerStep world "mapping data" cardMappingTag .nonceMapped
          (mechanism.mapNonce data pace.mechanism))
  | agreedOnKey {key : Bytes} (hshape : step.hasShape mseSetAt = false)
      (hdue : step.hasShape Progress.nonceMapped.due = true)
      (hdata : authenticationData step terminalKeyTag = .ok key) :
      Acts mechanism pace world step (.authenticating .nonceMapped)
        (pace.answerStep world "ephemeral public key" cardKeyTag .keyAgreed
          (mechanism.keyAgreement key pace.mechanism))
  /-- The selection is taken, but the password may not be used. -/
  | withheld {fault : Fault} {world' : W} (hshape : step.hasShape mseSetAt = false)
      (hdue : step.hasShape Progress.keyAgreed.due = true)
      (herror : fault.status.isError = true) (hreads : Reads pace.storage world world') :
      Acts mechanism pace world step (.authenticating .keyAgreed)
        (.fail fault { pace with selection := none } world')
  | verified {outcome : Outcome μ W} (hverifies : Verifies mechanism pace world step outcome) :
      Acts mechanism pace world step (.authenticating .keyAgreed) outcome

variable {mechanism : Mechanism μ} {pace : Pace μ W} {world : W} {step : Step}

theorem idle_ne_established : State.idle ≠ .established := by
  simp

theorem authenticating_ne_established (progress : Progress) :
    State.authenticating progress ≠ .established := by
  simp

theorem Verifies.taken {outcome : Outcome μ W} (h : Verifies mechanism pace world step outcome) :
    ∃ token selection stored read result, Presents pace world step token selection stored read ∧
      mechanism.mutualAuthenticate token pace.mechanism = (result, outcome.pace.mechanism) ∧
      outcome.pace.selection = none := by
  cases h with
  | unverified hpresents hcall | rejected hpresents hcall | unspent hpresents hcall
  | accepted hpresents hcall | unrestored hpresents hcall =>
    exact ⟨_, _, _, _, _, hpresents, hcall, rfl⟩

theorem acts_select {state : State} (hstate : state ≠ .established)
    (hshape : step.hasShape mseSetAt = true) :
    Acts mechanism pace world step state (pace.select mechanism world step) := by
  have hoptions : (pace.restart mechanism).options = pace.options := rfl
  have hread : (pace.restart mechanism).readPassword = pace.readPassword := rfl
  have htrust : (pace.restart mechanism).checkTrust = pace.checkTrust := rfl
  unfold select
  simp only [hoptions, hread, htrust]
  cases hselection : readSelection pace.options step with
  | error fault => exact .refused hstate hshape (isError_of_readSelection hselection) (.refl world)
  | ok selection =>
    rcases hpassword : pace.readPassword selection.password world with ⟨fault | stored, world'⟩
    · simp only [hpassword]
      exact .refused hstate hshape (isError_of_readPassword hpassword)
        (reads_of_readPassword (.refl world) hpassword)
    · rcases hchat : pace.checkTrust selection.chat world' with ⟨fault | _, world''⟩
      · simp only [hpassword, hchat]
        exact .refused hstate hshape (isError_of_checkTrust hchat)
          (reads_of_checkTrust (reads_of_readPassword (.refl world) hpassword) hchat)
      · simp only [hpassword, hchat]
        exact .selected hstate hshape hselection hpassword hchat

theorem acts_sendNonce (hshape : step.hasShape mseSetAt = false)
    (hdue : step.hasShape Progress.setAtProcessed.due = true) :
    Acts mechanism pace world step (.authenticating .setAtProcessed)
      (pace.sendNonce mechanism world) := by
  unfold sendNonce
  cases hselection : pace.selection with
  | none => exact .halted hshape hdue rfl (.refl world)
  | some selection =>
    dsimp only
    rcases hpassword : pace.readPassword selection.password world with ⟨fault | stored, world'⟩
    · exact .halted hshape hdue (isError_of_readPassword hpassword)
        (reads_of_readPassword (.refl world) hpassword)
    · exact .sentNonce hshape hdue hselection hpassword

theorem acts_mapNonce (hshape : step.hasShape mseSetAt = false)
    (hdue : step.hasShape Progress.nonceSent.due = true) :
    Acts mechanism pace world step (.authenticating .nonceSent)
      (pace.mapNonce mechanism world step) := by
  unfold mapNonce
  cases hdata : authenticationData step terminalMappingTag with
  | error fault => exact .halted hshape hdue (isError_of_authenticationData hdata) (.refl world)
  | ok data => exact .mappedNonce hshape hdue hdata

theorem acts_agreeOnKey (hshape : step.hasShape mseSetAt = false)
    (hdue : step.hasShape Progress.nonceMapped.due = true) :
    Acts mechanism pace world step (.authenticating .nonceMapped)
      (pace.agreeOnKey mechanism world step) := by
  unfold agreeOnKey
  cases hdata : authenticationData step terminalKeyTag with
  | error fault => exact .halted hshape hdue (isError_of_authenticationData hdata) (.refl world)
  | ok key => exact .agreedOnKey hshape hdue hdata

theorem verifies_reject {token : Bytes} {selection : Selection} {stored : PasswordState} {read : W}
    {data : μ} (hpresents : Presents pace world step token selection stored read)
    (hcall : mechanism.mutualAuthenticate token pace.mechanism = (.ok none, data)) :
    Verifies mechanism pace world step
      (reject { pace with selection := none, mechanism := data } read selection.password
        stored) := by
  have hspend : ({ pace with selection := none, mechanism := data } : Pace μ W).spendAttempt =
      pace.spendAttempt := rfl
  rw [reject_eq, hspend]
  rcases hspent : pace.spendAttempt selection.password stored read with ⟨fault | _, world'⟩
  · exact .unspent hpresents hcall hspent
  · exact .rejected hpresents hcall hspent

theorem verifies_accept {token : Bytes} {selection : Selection} {stored : PasswordState} {read : W}
    {authentication : Authentication} {data : μ}
    (hpresents : Presents pace world step token selection stored read)
    (hcall : mechanism.mutualAuthenticate token pace.mechanism =
      (.ok (some authentication), data)) :
    Verifies mechanism pace world step
      (accept { pace with selection := none, mechanism := data } read selection stored
        authentication) := by
  have hrestore : ({ pace with selection := none, mechanism := data } : Pace μ W).restoreCounter =
      pace.restoreCounter := rfl
  unfold accept
  rw [hrestore]
  rcases hrestored : pace.restoreCounter selection.password stored read with ⟨fault | _, world'⟩
  · exact .unrestored hpresents hcall hrestored
  · exact .accepted hpresents hcall hrestored

theorem verifies_verify {token : Bytes} {selection : Selection} {stored : PasswordState} {read : W}
    (hpresents : Presents pace world step token selection stored read) :
    Verifies mechanism pace world step
      (verify mechanism { pace with selection := none } read token selection stored) := by
  unfold verify
  rcases hcall : mechanism.mutualAuthenticate token pace.mechanism with
    ⟨fault | _ | authentication, data⟩
  · exact .unverified hpresents hcall
  · exact verifies_reject hpresents hcall
  · exact verifies_accept hpresents hcall

theorem acts_mutualAuthenticate (hshape : step.hasShape mseSetAt = false)
    (hdue : step.hasShape Progress.keyAgreed.due = true) :
    Acts mechanism pace world step (.authenticating .keyAgreed)
      (pace.mutualAuthenticate mechanism world step) := by
  rw [mutualAuthenticate_eq]
  cases hdata : authenticationData step terminalTokenTag with
  | error fault => exact .halted hshape hdue (isError_of_authenticationData hdata) (.refl world)
  | ok token =>
    cases hselection : pace.selection with
    | none => exact .halted hshape hdue rfl (.refl world)
    | some selection =>
      dsimp only
      rcases hpassword : pace.readPassword selection.password world with ⟨fault | stored, world'⟩
      · exact .withheld hshape hdue (isError_of_readPassword hpassword)
          (reads_of_readPassword (.refl world) hpassword)
      · have hreads := reads_of_readPassword (.refl world) hpassword
        dsimp only
        split
        · exact .withheld hshape hdue rfl hreads
        · next hblocked =>
          split
          · exact .withheld hshape hdue rfl hreads
          · next hsuspended =>
            have hpresents : Presents pace world step token selection stored world' :=
              ⟨hshape, hdue, hdata, hselection, hpassword, by simpa using hblocked,
                by simpa using hsuspended⟩
            exact .verified (verifies_verify hpresents)

theorem acts_authenticate (hshape : step.hasShape mseSetAt = false) (progress : Progress) :
    Acts mechanism pace world step (.authenticating progress)
      (pace.authenticate mechanism world step progress) := by
  by_cases hdue : step.hasShape progress.due = true
  · cases progress <;> unfold authenticate <;> rw [Progress.due] at hdue <;>
      simp only [hdue, if_true]
    · exact acts_sendNonce hshape hdue
    · exact acts_mapNonce hshape hdue
    · exact acts_agreeOnKey hshape hdue
    · exact acts_mutualAuthenticate hshape hdue
  · have hnone : ∀ other, State.authenticating progress = .authenticating other →
        step.hasShape other.due = false := by
      rintro other ⟨⟩
      simpa using hdue
    have hauthenticate : pace.authenticate mechanism world step progress =
        if step.hasShape generalAuthenticate then .fail outOfSequence pace world
        else .unmatched pace world := by
      cases progress <;> rw [Progress.due] at hdue <;> rw [authenticate, if_neg hdue]
    rw [hauthenticate]
    split
    · next hstep =>
      exact .outOfSequence (authenticating_ne_established progress) hshape hnone hstep
    · next hstep =>
      exact .unmatched (authenticating_ne_established progress) hshape hnone (by simpa using hstep)

/-- A transition does one of the things listed. -/
theorem acts_act (mechanism : Mechanism μ) (pace : Pace μ W) (world : W) (step : Step)
    (state : State) :
    Acts mechanism pace world step state (pace.act mechanism world step state) := by
  cases state with
  | established =>
    cases h : pace.established with
    | none => exact .unannounced h
    | some established => exact .announced h
  | authenticating progress =>
    rw [act]
    split
    · next hshape => exact acts_select (authenticating_ne_established progress) hshape
    · next hshape => exact acts_authenticate (by simpa using hshape) progress
  | idle =>
    rw [act]
    split
    · next hshape => exact acts_select idle_ne_established hshape
    · next hshape =>
      have hshape : step.hasShape mseSetAt = false := by simpa using hshape
      have hnone : ∀ progress, State.idle = .authenticating progress →
          step.hasShape progress.due = false := by simp
      split
      · next hstep => exact .outOfSequence idle_ne_established hshape hnone hstep
      · next hstep => exact .unmatched idle_ne_established hshape hnone (by simpa using hstep)

end SmartCard.Pace
