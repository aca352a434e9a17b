import SmartCard.Pace.Basic

/-!
# Recorded calls

A mechanism that keeps a record of the calls it answers, and an access to the card state that keeps
one of its writes. A run over these shows what it does to any mechanism and any card state.
-/

namespace SmartCard

variable {μ W : Type}

namespace Pace

/-- The steps of an authentication that the mechanism takes part in. -/
inductive Stage where
  | encryptedNonce
  | mapNonce
  | keyAgreement
  | mutualAuthenticate
deriving DecidableEq

/-- The order in which the stages are due. -/
def Stage.order : List Stage :=
  [encryptedNonce, mapNonce, keyAgreement, mutualAuthenticate]

/-- A call of a mechanism, with what it was given and what it gave back. -/
inductive Call where
  | encryptedNonce (algorithm : Algorithm) (domainParameters : UInt8) (password : Bytes)
      (result : Except Fault Bytes)
  | mapNonce (data : Bytes) (result : Except Fault Bytes)
  | keyAgreement (key : Bytes) (result : Except Fault Bytes)
  | mutualAuthenticate (token : Bytes) (result : Except Fault (Option Authentication))
  | reset

namespace Call

/-- The stage that a call is an attempt of. -/
def stage? : Call → Option Stage
  | encryptedNonce .. => some .encryptedNonce
  | mapNonce .. => some .mapNonce
  | keyAgreement .. => some .keyAgreement
  | mutualAuthenticate .. => some .mutualAuthenticate
  | reset => none

/-- Whether a call gave something back, and not a fault. -/
def isAnswered : Call → Bool
  | encryptedNonce _ _ _ result => result.toBool
  | mapNonce _ result => result.toBool
  | keyAgreement _ result => result.toBool
  | mutualAuthenticate _ result => result.toBool
  | reset => true

end Call

/-- A mechanism with a record of its calls, oldest first. -/
def Mechanism.recorded (mechanism : Mechanism μ) : Mechanism (μ × List Call) where
  encryptedNonce algorithm domainParameters password data :=
    let (result, next) := mechanism.encryptedNonce algorithm domainParameters password data.1
    (result, next, data.2 ++ [.encryptedNonce algorithm domainParameters password result])
  mapNonce mapping data :=
    let (result, next) := mechanism.mapNonce mapping data.1
    (result, next, data.2 ++ [.mapNonce mapping result])
  keyAgreement key data :=
    let (result, next) := mechanism.keyAgreement key data.1
    (result, next, data.2 ++ [.keyAgreement key result])
  mutualAuthenticate token data :=
    let (result, next) := mechanism.mutualAuthenticate token data.1
    (result, next, data.2 ++ [.mutualAuthenticate token result])
  reset data := (mechanism.reset data.1, data.2 ++ [.reset])

end Pace

/-- A write of the remaining attempts of a password, and whether it failed. -/
structure Write where
  password : PasswordRef
  counter : UInt8
  result : Except Fault Unit

/-- An access to the card state with a record of its writes, oldest first. -/
def Storage.recorded (storage : Storage W) : Storage (W × List Write) where
  password password world :=
    let (stored, next) := storage.password password world.1
    (stored, next, world.2)
  setRetryCounter password counter world :=
    let (result, next) := storage.setRetryCounter password counter world.1
    (result, next, world.2 ++ [⟨password, counter, result⟩])
  trustPoint terminal world :=
    let (trustPoint, next) := storage.trustPoint terminal world.1
    (trustPoint, next, world.2)

@[simp] theorem Storage.password_recorded (storage : Storage W) (password : PasswordRef)
    (world : W × List Write) :
    storage.recorded.password password world =
      ((storage.password password world.1).1, (storage.password password world.1).2, world.2) :=
  rfl

namespace Pace

variable {pace : Pace μ (W × List Write)} {storage : Storage W} {world : W × List Write}
  {password : PasswordRef}

section

variable (hstorage : pace.storage = some storage.recorded)

include hstorage

theorem readPassword_recorded_eq (password : PasswordRef) (world : W × List Write) :
    pace.readPassword password world =
      match storage.password password world.1 with
      | (some stored, read) => (.ok stored, read, world.2)
      | (none, read) =>
        (.error ⟨.referencedDataNotFound, password.name ++ " not set"⟩, read, world.2) := by
  unfold readPassword
  rw [hstorage]
  dsimp only
  rw [Storage.password_recorded]
  rcases storage.password password world.1 with ⟨_ | stored, read⟩ <;> rfl

theorem readPassword_recorded {stored : PasswordState} {read : W × List Write}
    (h : pace.readPassword password world = (.ok stored, read)) :
    storage.password password world.1 = (some stored, read.1) ∧ read.2 = world.2 := by
  rw [readPassword_recorded_eq hstorage] at h
  rcases hread : storage.password password world.1 with ⟨_ | state, next⟩
  · rw [hread] at h
    cases h
  · rw [hread] at h
    cases h
    exact ⟨rfl, rfl⟩

theorem writeCounter_recorded (password : PasswordRef) (counter : UInt8)
    (world : W × List Write) :
    pace.writeCounter password counter world =
      match storage.setRetryCounter password counter world.1 with
      | (result, next) => (result, next, world.2 ++ [⟨password, counter, result⟩]) := by
  unfold writeCounter
  rw [hstorage]
  rfl

/-- Restoring a counter writes it unless it is already as it was. -/
theorem restoreCounter_recorded (password : PasswordRef) (stored : PasswordState)
    (world : W × List Write) :
    ((∀ counter initial, stored.retryCounter = some counter →
        stored.initialRetryCounter = some initial → counter = initial) ∧
      pace.restoreCounter password stored world = (.ok (), world)) ∨
    ∃ counter initial, stored.retryCounter = some counter ∧
      stored.initialRetryCounter = some initial ∧ counter ≠ initial ∧
      pace.restoreCounter password stored world =
        match storage.setRetryCounter password initial world.1 with
        | (result, next) => (result, next, world.2 ++ [⟨password, initial, result⟩]) := by
  unfold restoreCounter
  split
  · next counter initial hcounter hinitial =>
    split
    · next hsame =>
      refine .inl ⟨?_, rfl⟩
      intro other first hother hfirst
      cases hcounter.symm.trans hother
      cases hinitial.symm.trans hfirst
      exact hsame
    · next hdifferent =>
      exact .inr ⟨counter, initial, hcounter, hinitial, hdifferent,
        writeCounter_recorded hstorage password initial world⟩
  · next hnone =>
    refine .inl ⟨?_, rfl⟩
    intro counter initial hcounter hinitial
    exact (hnone counter initial hcounter hinitial).elim

/-- What restoring a counter wrote, if anything, failed if it failed. -/
theorem written_of_restoreCounter {stored : PasswordState} {world' : W × List Write}
    {result : Except Fault Unit}
    (h : pace.restoreCounter password stored world = (result, world')) :
    world' = world ∧ result = .ok () ∨
      ∃ counter, world'.2 = world.2 ++ [⟨password, counter, result⟩] := by
  rcases restoreCounter_recorded hstorage password stored world with
    ⟨_, hrestored⟩ | ⟨_, initial, _, _, _, hrestored⟩
  · rw [hrestored] at h
    cases h
    exact .inl ⟨rfl, rfl⟩
  · rw [hrestored] at h
    cases h
    exact .inr ⟨initial, rfl⟩

end

end Pace

end SmartCard
