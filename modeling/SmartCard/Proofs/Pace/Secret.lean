import SmartCard.Proofs.Pace.Erasure
import SmartCard.Proofs.Pace.Guessing

/-!
# Secrets

PACE hands the secret of a password to the mechanism when it asks for a nonce, and for nothing else.
With another secret in the card state, everything else that a command does is the same, and the card
state that it leaves differs in that secret alone.
-/

namespace SmartCard

/-- A stored password, with another secret if it is the one that is changed. -/
def PasswordState.withSecret (changed : PasswordRef) (secret : Bytes) (password : PasswordRef)
    (state : PasswordState) : PasswordState :=
  if password = changed then { state with secret } else state

/-- A card state with another secret for a password. -/
def CardMemory.withSecret (changed : PasswordRef) (secret : Bytes) (memory : CardMemory) :
    CardMemory :=
  { memory with
    passwords := fun password =>
      (memory.passwords password).map (.withSecret changed secret password) }

namespace PasswordState

variable (changed : PasswordRef) (secret : Bytes) (password : PasswordRef) (state : PasswordState)

theorem withSecret_of_ne {changed password : PasswordRef} (h : password ≠ changed) :
    state.withSecret changed secret password = state :=
  if_neg h

@[simp] theorem retryCounter_withSecret :
    (state.withSecret changed secret password).retryCounter = state.retryCounter := by
  unfold withSecret
  split <;> rfl

@[simp] theorem initialRetryCounter_withSecret :
    (state.withSecret changed secret password).initialRetryCounter = state.initialRetryCounter := by
  unfold withSecret
  split <;> rfl

@[simp] theorem isBlocked_withSecret :
    (state.withSecret changed secret password).isBlocked = state.isBlocked := by
  simp [isBlocked]

@[simp] theorem isSuspended_withSecret :
    (state.withSecret changed secret password).isSuspended = state.isSuspended := by
  simp [isSuspended]

end PasswordState

theorem CardMemory.setRetryCounter_withSecret (memory : CardMemory) (changed : PasswordRef)
    (secret : Bytes) (password : PasswordRef) (counter : UInt8) :
    (memory.withSecret changed secret).setRetryCounter password counter =
      (memory.setRetryCounter password counter).map (withSecret changed secret) := by
  unfold setRetryCounter
  cases hstored : memory.passwords password with
  | none => simp [withSecret, hstored, Except.map]
  | some state =>
    simp only [withSecret, hstored, Option.map_some, PasswordState.retryCounter_withSecret]
    split
    · rfl
    · have hpasswords : ∀ other,
          (if other = password then
              some { state.withSecret changed secret password with retryCounter := some counter }
            else (memory.passwords other).map (.withSecret changed secret other)) =
          ((memory.withPassword password { state with retryCounter := some counter }).passwords
            other).map (.withSecret changed secret other) := by
        intro other
        by_cases h : other = password
        · subst h
          simp only [if_true, withPassword, Option.map_some, PasswordState.withSecret]
          split <;> rfl
        · simp [withPassword, h]
      simp only [Except.map, withSecret, withPassword] at hpasswords ⊢
      simp only [hpasswords]

namespace Pace

variable {μ : Type}

/-- A mechanism that encrypts its nonces without looking at the password. -/
def Mechanism.Indifferent (mechanism : Mechanism μ) : Prop :=
  ∀ algorithm domainParameters password other data,
    mechanism.encryptedNonce algorithm domainParameters password data =
      mechanism.encryptedNonce algorithm domainParameters other data

/-- An outcome with another secret for a password. -/
def Outcome.withSecret (changed : PasswordRef) (secret : Bytes) (outcome : Outcome μ CardMemory) :
    Outcome μ CardMemory :=
  { outcome with world := outcome.world.withSecret changed secret }

/-- The command makes a nonce be encrypted under a password. -/
structure Encrypts (password : PasswordRef) (pace : Pace μ CardMemory) (memory : CardMemory)
    (step : Step) (state : State) : Prop where
  state : state = .authenticating .setAtProcessed
  shape : step.hasShape mseSetAt = false
  due : step.hasShape gaEncryptedNonce = true
  selected : pace.selection.map (·.password) = some password
  stored : (memory.passwords password).isSome

section

variable {changed : PasswordRef} {secret : Bytes} {mechanism : Mechanism μ}
  {pace : Pace μ CardMemory} {memory : CardMemory} {step : Step}

/-! ### The card state -/

theorem readPassword_withSecret (hstorage : pace.storage = some Storage.memory)
    (password : PasswordRef) (memory : CardMemory) :
    pace.readPassword password (memory.withSecret changed secret) =
      (pace.readPassword password memory).map (Except.map (.withSecret changed secret password))
        (CardMemory.withSecret changed secret) := by
  unfold readPassword
  rw [hstorage]
  simp only [Storage.memory, CardMemory.withSecret]
  cases memory.passwords password <;> rfl

theorem writeCounter_withSecret (hstorage : pace.storage = some Storage.memory)
    (password : PasswordRef) (counter : UInt8) (memory : CardMemory) :
    pace.writeCounter password counter (memory.withSecret changed secret) =
      (pace.writeCounter password counter memory).map id
        (CardMemory.withSecret changed secret) := by
  unfold writeCounter
  rw [hstorage]
  simp only [Storage.memory, CardMemory.setRetryCounter_withSecret]
  cases memory.setRetryCounter password counter <;> rfl

theorem checkTrust_withSecret (hstorage : pace.storage = some Storage.memory) (chat : Option Chat)
    (memory : CardMemory) :
    pace.checkTrust chat (memory.withSecret changed secret) =
      (pace.checkTrust chat memory).map id (CardMemory.withSecret changed secret) := by
  unfold checkTrust
  cases chat with
  | none => rfl
  | some chat =>
    rw [hstorage]
    simp only [Storage.memory, CardMemory.withSecret]
    cases memory.trustPoints chat.terminal <;> rfl

theorem restoreCounter_withSecret (hstorage : pace.storage = some Storage.memory)
    (password other : PasswordRef) (stored : PasswordState) (memory : CardMemory) :
    pace.restoreCounter password (stored.withSecret changed secret other)
        (memory.withSecret changed secret) =
      (pace.restoreCounter password stored memory).map id
        (CardMemory.withSecret changed secret) := by
  unfold restoreCounter
  rw [PasswordState.retryCounter_withSecret, PasswordState.initialRetryCounter_withSecret]
  split
  · split
    · rfl
    · exact writeCounter_withSecret hstorage password _ memory
  · rfl

/-! ### Transitions -/

theorem isSuspended_withSecret (pace : Pace μ CardMemory) (password : PasswordRef)
    (stored : PasswordState) :
    pace.isSuspended password (stored.withSecret changed secret password) =
      pace.isSuspended password stored := by
  simp [isSuspended]

theorem selectionStatus_withSecret (pace : Pace μ CardMemory) (password : PasswordRef)
    (stored : PasswordState) :
    pace.selectionStatus password (stored.withSecret changed secret password) =
      pace.selectionStatus password stored := by
  simp [selectionStatus, isSuspended_withSecret]

theorem select_withSecret (hstorage : pace.storage = some Storage.memory) :
    pace.select mechanism (memory.withSecret changed secret) step =
      (pace.select mechanism memory step).withSecret changed secret := by
  have hkept : (pace.restart mechanism).storage = some Storage.memory := hstorage
  unfold select
  dsimp only
  cases readSelection (pace.restart mechanism).options step with
  | error fault => rfl
  | ok selection =>
    simp only [readPassword_withSecret hkept]
    rcases (pace.restart mechanism).readPassword selection.password memory with
      ⟨fault | stored, next⟩
    · rfl
    · simp only [Prod.map_apply, Except.map, checkTrust_withSecret hkept]
      rcases (pace.restart mechanism).checkTrust selection.chat next with ⟨fault | _, last⟩
      · rfl
      · simp only [Prod.map_apply, id_eq, selectionStatus_withSecret]
        rfl

theorem answerStep_withSecret (memory : CardMemory) (message : String) (inner : Tag)
    (next : Progress) (result : Except Fault Bytes × μ) :
    pace.answerStep (memory.withSecret changed secret) message inner next result =
      (pace.answerStep memory message inner next result).withSecret changed secret := by
  obtain ⟨fault | data, mechanism⟩ := result <;> rfl

/-- The nonce is the one thing that depends on a secret. -/
theorem sendNonce_withSecret (hstorage : pace.storage = some Storage.memory)
    (hsecret : pace.selection.map (·.password) = some changed →
      (memory.passwords changed).isSome → mechanism.Indifferent) :
    pace.sendNonce mechanism (memory.withSecret changed secret) =
      (pace.sendNonce mechanism memory).withSecret changed secret := by
  unfold sendNonce
  cases hselection : pace.selection with
  | none => rfl
  | some selection =>
    simp only [readPassword_withSecret hstorage]
    rcases hread : pace.readPassword selection.password memory with ⟨fault | stored, next⟩
    · rfl
    · simp only [Prod.map_apply, Except.map, answerStep_withSecret]
      by_cases hchanged : selection.password = changed
      · have hstored : (memory.passwords changed).isSome := by
          rw [← hchanged, (readPassword_memory hstorage hread).1]
          rfl
        have hindifferent := hsecret (by rw [hselection, Option.map_some, hchanged]) hstored
        rw [hindifferent]
      · rw [PasswordState.withSecret_of_ne secret stored hchanged]

theorem mapNonce_withSecret :
    pace.mapNonce mechanism (memory.withSecret changed secret) step =
      (pace.mapNonce mechanism memory step).withSecret changed secret := by
  unfold mapNonce
  cases authenticationData step terminalMappingTag with
  | error fault => rfl
  | ok data => exact answerStep_withSecret ..

theorem agreeOnKey_withSecret :
    pace.agreeOnKey mechanism (memory.withSecret changed secret) step =
      (pace.agreeOnKey mechanism memory step).withSecret changed secret := by
  unfold agreeOnKey
  cases authenticationData step terminalKeyTag with
  | error fault => rfl
  | ok data => exact answerStep_withSecret ..

theorem reject_withSecret (hstorage : pace.storage = some Storage.memory) (memory : CardMemory)
    (password : PasswordRef) (stored : PasswordState) :
    pace.reject (memory.withSecret changed secret) password
        (stored.withSecret changed secret password) =
      (pace.reject memory password stored).withSecret changed secret := by
  unfold reject
  rw [PasswordState.retryCounter_withSecret]
  cases stored.retryCounter with
  | none => rfl
  | some counter =>
    simp only [writeCounter_withSecret hstorage]
    rcases pace.writeCounter password (if counter = 0 then 0 else counter - 1) memory with
      ⟨fault | _, next⟩ <;> rfl

theorem accept_withSecret (hstorage : pace.storage = some Storage.memory) (memory : CardMemory)
    (selection : Selection) (stored : PasswordState) (authentication : Authentication) :
    pace.accept (memory.withSecret changed secret) selection
        (stored.withSecret changed secret selection.password) authentication =
      (pace.accept memory selection stored authentication).withSecret changed secret := by
  unfold accept
  simp only [restoreCounter_withSecret hstorage]
  rcases pace.restoreCounter selection.password stored memory with ⟨fault | _, next⟩ <;> rfl

theorem verify_withSecret (hstorage : pace.storage = some Storage.memory) (memory : CardMemory)
    (token : Bytes) (selection : Selection) (stored : PasswordState) :
    verify mechanism pace (memory.withSecret changed secret) token selection
        (stored.withSecret changed secret selection.password) =
      (verify mechanism pace memory token selection stored).withSecret changed secret := by
  unfold verify
  rcases mechanism.mutualAuthenticate token pace.mechanism with ⟨fault | _ | authentication, data⟩
  all_goals
    have hkept : ({ pace with mechanism := data } : Pace μ CardMemory).storage =
        some Storage.memory := hstorage
  · rfl
  · exact reject_withSecret hkept ..
  · exact accept_withSecret hkept ..

theorem mutualAuthenticate_withSecret (hstorage : pace.storage = some Storage.memory) :
    pace.mutualAuthenticate mechanism (memory.withSecret changed secret) step =
      (pace.mutualAuthenticate mechanism memory step).withSecret changed secret := by
  have hkept : ({ pace with selection := none } : Pace μ CardMemory).storage =
      some Storage.memory := hstorage
  rw [mutualAuthenticate_eq, mutualAuthenticate_eq]
  cases authenticationData step terminalTokenTag with
  | error fault => rfl
  | ok token =>
    cases pace.selection with
    | none => rfl
    | some selection =>
      simp only [readPassword_withSecret hstorage]
      rcases pace.readPassword selection.password memory with ⟨fault | stored, next⟩
      · rfl
      · simp only [Prod.map_apply, Except.map, PasswordState.isBlocked_withSecret,
          isSuspended_withSecret, verify_withSecret hkept]
        split
        · rfl
        · split <;> rfl

theorem act_withSecret (secret : Bytes) (hstorage : pace.storage = some Storage.memory)
    (memory : CardMemory) (step : Step) (state : State)
    (hsecret : Encrypts changed pace memory step state → mechanism.Indifferent) :
    pace.act mechanism (memory.withSecret changed secret) step state =
      (pace.act mechanism memory step state).withSecret changed secret := by
  cases state with
  | established =>
    simp only [act, announce]
    cases pace.established <;> rfl
  | idle =>
    rw [act, act]
    split
    · exact select_withSecret hstorage
    · split <;> rfl
  | authenticating progress =>
    rw [act, act]
    split
    · exact select_withSecret hstorage
    · next hshape =>
      have hshape : step.hasShape mseSetAt = false := by simpa using hshape
      cases progress <;> unfold authenticate <;> dsimp only <;> split
      · next hdue =>
        exact sendNonce_withSecret hstorage fun hselected hstored =>
          hsecret ⟨rfl, hshape, hdue, hselected, hstored⟩
      · split <;> rfl
      · exact mapNonce_withSecret
      · split <;> rfl
      · exact agreeOnKey_withSecret
      · split <;> rfl
      · exact mutualAuthenticate_withSecret hstorage
      · split <;> rfl

/-! ### Commands -/

/-- A command under way with another secret for a password. -/
def Run.withSecret (changed : PasswordRef) (secret : Bytes)
    (run : Engine.Run State Mode (Pace μ CardMemory) CardMemory) :
    Engine.Run State Mode (Pace μ CardMemory) CardMemory :=
  { run with world := run.world.withSecret changed secret }

theorem advance_withSecret {run : Engine.Run State Mode (Pace μ CardMemory) CardMemory}
    (hstorage : run.engine.data.storage = some Storage.memory)
    (hsecret : Encrypts changed run.engine.data run.world
      ⟨name, run.engine.registry, run.context⟩ run.engine.state → mechanism.Indifferent) :
    Engine.advance (protocol mechanism) name (Run.withSecret changed secret run) =
      (Engine.advance (protocol mechanism) name run).map (Run.withSecret changed secret) := by
  have hact := act_withSecret secret hstorage run.world ⟨name, run.engine.registry, run.context⟩
    run.engine.state hsecret
  rw [advance_eq, advance_eq]
  dsimp only [Run.withSecret]
  rw [hact]
  rfl

/-- Where another transition follows, keys have been agreed on. -/
theorem state_of_advance {run next : Engine.Run State Mode (Pace μ CardMemory) CardMemory}
    (h : Engine.advance (protocol mechanism) name run = .ok next) (hstop : next.stop = false) :
    next.engine.state = .established := by
  rw [advance_eq] at h
  cases h
  have hacts := acts_act mechanism run.engine.data run.world
    ⟨name, run.engine.registry, run.context⟩ run.engine.state
  have hstops := (Bool.or_eq_false_iff.mp hstop).2
  obtain ⟨_, _, _, _, _, _, _, _, _, houtcome⟩ := grants_of_not_stops mechanism hacts hstops
  dsimp only
  rw [houtcome]
  rfl

theorem loop_withSecret (limit : Nat) {run : Engine.Run State Mode (Pace μ CardMemory) CardMemory}
    (hstorage : run.engine.data.storage = some Storage.memory)
    (hsecret : 0 < limit → Encrypts changed run.engine.data run.world
      ⟨name, run.engine.registry, run.context⟩ run.engine.state → mechanism.Indifferent) :
    Engine.loop (protocol mechanism) name limit (Run.withSecret changed secret run) =
      (Engine.loop (protocol mechanism) name limit run).map (Run.withSecret changed secret) := by
  let Spared : Engine.Run State Mode (Pace μ CardMemory) CardMemory → Prop := fun run =>
    run.engine.data.storage = some Storage.memory ∧
      (Encrypts changed run.engine.data run.world ⟨name, run.engine.registry, run.context⟩
        run.engine.state → mechanism.Indifferent)
  refine Engine.loop_map (f := Run.withSecret changed secret) (P := Spared) (fun _ => rfl) ?_ ?_ ?_
    limit fun hlimit => ⟨hstorage, hsecret hlimit⟩
  · intro run
    rw [giveUp_eq, giveUp_eq]
    rfl
  · rintro run ⟨hstorage, hsecret⟩
    exact advance_withSecret hstorage hsecret
  · rintro run next ⟨hstorage, _⟩ hadvance hgoes
    refine ⟨storage_of_advance hstorage hadvance, ?_⟩
    intro hencrypts
    have hstate := hencrypts.state
    rw [state_of_advance hadvance hgoes] at hstate
    cases hstate

theorem process_withSecret (secret : Bytes) {engine : Driver μ CardMemory}
    (hstorage : engine.data.storage = some Storage.memory) (memory : CardMemory)
    (context : Context)
    (hsecret : 0 < engine.maxTransitions → Encrypts changed engine.data memory
      ⟨name, engine.registry, context⟩ engine.state → mechanism.Indifferent) :
    Engine.process (protocol mechanism) engine (memory.withSecret changed secret) context =
      (Engine.process (protocol mechanism) engine memory context).map
        fun (engine, memory, context) => (engine, memory.withSecret changed secret, context) := by
  have hloop : Engine.loop (protocol mechanism) name engine.maxTransitions
      ⟨engine, memory.withSecret changed secret, context, false⟩ = _ :=
    loop_withSecret engine.maxTransitions
      (show (⟨engine, memory, context, false⟩ : Engine.Run State Mode (Pace μ CardMemory)
        CardMemory).engine.data.storage = _ from hstorage) hsecret
  rw [process_eq, process_eq, hloop]
  cases Engine.loop (protocol mechanism) name engine.maxTransitions
    ⟨engine, memory, context, false⟩ <;> rfl

end

end Pace

end SmartCard
