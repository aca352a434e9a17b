import SmartCard.Pace.Mechanism
import SmartCard.Pace.Shapes
import SmartCard.Protocol.Basic

/-!
Password authenticated connection establishment as a protocol. A selection is followed by four
steps, and a successful authentication announces the keys of the session in a transition of its
own, which reads no command.
-/

namespace SmartCard

namespace Pace

/-- The last step of an authentication that is done. -/
inductive Progress where
  | setAtProcessed
  | nonceSent
  | nonceMapped
  | keyAgreed
deriving DecidableEq, Repr

inductive State where
  | idle
  | authenticating (progress : Progress)
  /-- Keys have been agreed on and are about to be announced. -/
  | established
deriving DecidableEq, Repr

inductive Mode where
  | idle
  | authenticating
  | established
deriving DecidableEq, Repr

namespace Progress

def name : Progress → String
  | setAtProcessed => "SetAtProcessed"
  | nonceSent => "NonceSent"
  | nonceMapped => "NonceMapped"
  | keyAgreed => "KeyAgreed"

end Progress

namespace State

def mode : State → Mode
  | idle => .idle
  | authenticating _ => .authenticating
  | established => .established

def text : State → String
  | idle => "Idle"
  | authenticating progress => "Authenticating(" ++ progress.name ++ ")"
  | established => "Established"

end State

/-- An authentication that is done and not yet announced. -/
structure Established where
  selection : Selection
  keys : SessionKeys
deriving DecidableEq

end Pace

/-- The data of the protocol outside of its state. -/
structure Pace (μ W : Type) where
  mechanism : μ
  options : Pace.Options
  storage : Option (Storage W)
  selection : Option Pace.Selection
  established : Option Pace.Established
  /-- Whether the access number was used with success in this session, which resumes a suspended
  identification number. -/
  canAuthenticated : Bool

namespace Pace

/-- Something to be recorded in the context. -/
inductive Note where
  | response (message : String) (response : Response)
  | propagation (message : String) (propagation : Propagation)
deriving DecidableEq

/-- A context with something recorded in it. -/
def Note.recordIn (initiator : String) (context : Context) : Note → Context
  | response message answer => context.respond initiator message answer
  | propagation message announced => context.propagate initiator message announced

/-- What a transition comes to. -/
structure Outcome (μ W : Type) where
  next : Except Fault (Option State)
  pace : Pace μ W
  world : W
  /-- What is recorded in the context, in order. -/
  notes : List Note
  /-- Whether the processing of the command is to stop. -/
  stop : Bool

/-- The name under which the protocol changes contexts. -/
def name : String := "PACE"

def new {μ W : Type} (mechanism : μ) (options : Options) : Pace μ W :=
  ⟨mechanism, options, none, none, none, false⟩

section

variable {μ W : Type}

namespace Outcome

def fail (fault : Fault) (pace : Pace μ W) (world : W) : Outcome μ W :=
  ⟨.error fault, pace, world, [], false⟩

def unmatched (pace : Pace μ W) (world : W) : Outcome μ W :=
  ⟨.ok none, pace, world, [], false⟩

end Outcome

/-- The fault of a protocol that has no access to the card state. -/
def noCardState : Fault :=
  ⟨.unknownError, "no card state"⟩

/-- The fault of a step that comes at the wrong time. -/
def outOfSequence : Fault :=
  ⟨.conditionsOfUseNotSatisfied, "General Authenticate out of sequence"⟩

def readPassword (pace : Pace μ W) (password : PasswordRef) (world : W) :
    Except Fault PasswordState × W :=
  match pace.storage with
  | none => (.error noCardState, world)
  | some storage =>
    match storage.password password world with
    | (some state, world) => (.ok state, world)
    | (none, world) => (.error ⟨.referencedDataNotFound, password.name ++ " not set"⟩, world)

def writeCounter (pace : Pace μ W) (password : PasswordRef) (counter : UInt8) (world : W) :
    Except Fault Unit × W :=
  match pace.storage with
  | none => (.error noCardState, world)
  | some storage => storage.setRetryCounter password counter world

/-- The terminal type of an authorization template has to have a trust point. -/
def checkTrust (pace : Pace μ W) (chat : Option Chat) (world : W) : Except Fault Unit × W :=
  match chat with
  | none => (.ok (), world)
  | some chat =>
    match pace.storage with
    | none => (.error noCardState, world)
    | some storage =>
      match storage.trustPoint chat.terminal world with
      | (some _, world) => (.ok (), world)
      | (none, world) =>
        (.error ⟨.referencedDataNotFound, "no trust point for " ++ chat.terminal.name⟩, world)

/-- Whether the last attempt of a password is held back until the access number was used. -/
def isSuspended (pace : Pace μ W) (password : PasswordRef) (state : PasswordState) : Bool :=
  password = .pin && state.isSuspended && !pace.canAuthenticated

def selectionStatus (pace : Pace μ W) (password : PasswordRef) (state : PasswordState) :
    StatusWord :=
  if state.isBlocked then .retryCounter 0
  else if pace.isSuspended password state then .retryCounter 1
  else .success

/-- Forgets an authentication that is under way. -/
def restart (mechanism : Mechanism μ) (pace : Pace μ W) : Pace μ W :=
  { pace with
    mechanism := mechanism.reset pace.mechanism
    selection := none
    established := none }

def readSelection (options : Options) (step : Step) : Except Fault Selection :=
  match step.verdict? Pace.setAt with
  | none => .error ⟨.unknownError, "Set AT not registered"⟩
  | some verdict =>
    if verdict.isMatch then
      match Object.decodeAll step.command.command.data with
      | .error _ => .error ⟨.malformedData, "invalid Set AT data"⟩
      | .ok objects => Selection.ofObjects options objects
    else
      .error ⟨verdict.status, verdict.diagnostic⟩

/-- Starts an authentication over with what the current command selects. -/
def select (mechanism : Mechanism μ) (pace : Pace μ W) (world : W) (step : Step) :
    Outcome μ W :=
  let pace := pace.restart mechanism
  match readSelection pace.options step with
  | .error fault => .fail fault pace world
  | .ok selection =>
    match pace.readPassword selection.password world with
    | (.error fault, world) => .fail fault pace world
    | (.ok state, world) =>
      match pace.checkTrust selection.chat world with
      | (.error fault, world) => .fail fault pace world
      | (.ok (), world) =>
        { next := .ok (some (.authenticating .setAtProcessed))
          pace := { pace with selection := some selection }
          world
          notes := [.response "Set AT"
            (.ofStatus (pace.selectionStatus selection.password state))]
          stop := true }

/-- The data object of a step in the authentication data of the current command. -/
def authenticationData (step : Step) (inner : Tag) : Except Fault Bytes :=
  match Object.decodeAll step.command.command.data with
  | .error _ => .error ⟨.malformedData, "invalid authentication data"⟩
  | .ok objects =>
    match (Object.atPath? [authenticationDataTag, inner] objects).bind Object.bytes? with
    | some data => .ok data
    | none => .error ⟨.wrongData, "missing authentication data " ++ inner.text⟩

def authenticationResponse (inner : Tag) (data : Bytes) : Response :=
  .withData [.constructed authenticationDataTag [.primitive inner data]] .success

/-- Ends a step that the mechanism answered. -/
def answerStep (pace : Pace μ W) (world : W) (message : String) (inner : Tag)
    (next : Progress) : Except Fault Bytes × μ → Outcome μ W
  | (.error fault, mechanism) => .fail fault { pace with mechanism } world
  | (.ok data, mechanism) =>
    { next := .ok (some (.authenticating next))
      pace := { pace with mechanism }
      world
      notes := [.response message (authenticationResponse inner data)]
      stop := true }

/-- The first step: a nonce, encrypted under the selected password. -/
def sendNonce (mechanism : Mechanism μ) (pace : Pace μ W) (world : W) : Outcome μ W :=
  match pace.selection with
  | none => .fail outOfSequence pace world
  | some selection =>
    match pace.readPassword selection.password world with
    | (.error fault, world) => .fail fault pace world
    | (.ok state, world) =>
      pace.answerStep world "encrypted nonce" encryptedNonceTag .nonceSent
        (mechanism.encryptedNonce selection.algorithm pace.options.domainParameters state.secret
          pace.mechanism)

/-- The second step: mapping data for mapping data. -/
def mapNonce (mechanism : Mechanism μ) (pace : Pace μ W) (world : W) (step : Step) :
    Outcome μ W :=
  match authenticationData step terminalMappingTag with
  | .error fault => .fail fault pace world
  | .ok data =>
    pace.answerStep world "mapping data" cardMappingTag .nonceMapped
      (mechanism.mapNonce data pace.mechanism)

/-- The third step: an ephemeral key for an ephemeral key. -/
def agreeOnKey (mechanism : Mechanism μ) (pace : Pace μ W) (world : W) (step : Step) :
    Outcome μ W :=
  match authenticationData step terminalKeyTag with
  | .error fault => .fail fault pace world
  | .ok data =>
    pace.answerStep world "ephemeral public key" cardKeyTag .keyAgreed
      (mechanism.keyAgreement data pace.mechanism)

/-- The answer to a wrong token, which costs an attempt if attempts are counted. -/
def reject (pace : Pace μ W) (world : W) (password : PasswordRef) (state : PasswordState) :
    Outcome μ W :=
  let rejected (status : StatusWord) (world : W) : Outcome μ W :=
    { next := .ok (some .idle)
      pace
      world
      notes := [.propagation "authentication failed" (.event (.authenticationFailed password)),
        .response "authentication token rejected" (.ofStatus status)]
      stop := true }
  match state.retryCounter with
  | none => rejected .verificationFailed world
  | some counter =>
    let remaining := if counter = 0 then 0 else counter - 1
    match pace.writeCounter password remaining world with
    | (.error fault, world) => .fail fault pace world
    | (.ok (), world) => rejected (.retryCounter remaining) world

/-- Restores the attempts of a password after it was used with success. -/
def restoreCounter (pace : Pace μ W) (password : PasswordRef) (state : PasswordState) (world : W) :
    Except Fault Unit × W :=
  match state.retryCounter, state.initialRetryCounter with
  | some counter, some initial =>
    if counter = initial then (.ok (), world) else pace.writeCounter password initial world
  | _, _ => (.ok (), world)

/-- The answer to a right token. The keys are kept to be announced. -/
def accept (pace : Pace μ W) (world : W) (selection : Selection) (state : PasswordState)
    (authentication : Authentication) : Outcome μ W :=
  match pace.restoreCounter selection.password state world with
  | (.error fault, world) => .fail fault pace world
  | (.ok (), world) =>
    { next := .ok (some .established)
      pace := { pace with
        canAuthenticated := selection.password = .can || pace.canAuthenticated
        established := some ⟨selection, authentication.keys⟩ }
      world
      notes := [.response "authentication token"
        (authenticationResponse cardTokenTag authentication.token)]
      stop := false }

/-- The last step: the tokens that show that both sides used the same password. -/
def mutualAuthenticate (mechanism : Mechanism μ) (pace : Pace μ W) (world : W) (step : Step) :
    Outcome μ W :=
  match authenticationData step terminalTokenTag with
  | .error fault => .fail fault pace world
  | .ok token =>
    match pace.selection with
    | none => .fail outOfSequence pace world
    | some selection =>
      let pace := { pace with selection := none }
      match pace.readPassword selection.password world with
      | (.error fault, world) => .fail fault pace world
      | (.ok state, world) =>
        if state.isBlocked then
          .fail ⟨.authenticationMethodBlocked, selection.password.name ++ " blocked"⟩ pace world
        else if pace.isSuspended selection.password state then
          .fail ⟨.conditionsOfUseNotSatisfied, "PIN suspended, CAN required"⟩ pace world
        else
          match mechanism.mutualAuthenticate token pace.mechanism with
          | (.error fault, mechanism) => .fail fault { pace with mechanism } world
          | (.ok none, mechanism) => reject { pace with mechanism } world selection.password state
          | (.ok (some authentication), mechanism) =>
            accept { pace with mechanism } world selection state authentication

/-- One step of an authentication, if the current command is the one that is due. -/
def authenticate (mechanism : Mechanism μ) (pace : Pace μ W) (world : W) (step : Step)
    (progress : Progress) : Outcome μ W :=
  let due := match progress with
    | .setAtProcessed => gaEncryptedNonce
    | .nonceSent => gaMapNonce
    | .nonceMapped => gaKeyAgreement
    | .keyAgreed => gaMutualAuthenticate
  if step.hasShape due then
    match progress with
    | .setAtProcessed => pace.sendNonce mechanism world
    | .nonceSent => pace.mapNonce mechanism world step
    | .nonceMapped => pace.agreeOnKey mechanism world step
    | .keyAgreed => pace.mutualAuthenticate mechanism world step
  else if step.hasShape generalAuthenticate then
    .fail outOfSequence pace world
  else
    .unmatched pace world

def announce (pace : Pace μ W) (world : W) : Outcome μ W :=
  match pace.established with
  | none => .fail ⟨.unknownError, "no established session"⟩ pace world
  | some established =>
    let selection := established.selection
    { next := .ok (some .idle)
      pace := { pace with established := none }
      world
      notes := [
        .propagation "PACE established"
          (.mechanism (.pace selection.password selection.oid (selection.chat.map (·.encoded)))),
        .propagation "session keys" (.sessionKeys established.keys),
        .propagation "secure messaging" (.event .secureMessagingEstablished)]
      stop := true }

def act (mechanism : Mechanism μ) (pace : Pace μ W) (world : W) (step : Step) :
    State → Outcome μ W
  | .established => pace.announce world
  | .authenticating progress =>
    if step.hasShape mseSetAt then pace.select mechanism world step
    else pace.authenticate mechanism world step progress
  | .idle =>
    if step.hasShape mseSetAt then pace.select mechanism world step
    else if step.hasShape generalAuthenticate then .fail outOfSequence pace world
    else .unmatched pace world

/-- Drops everything that belongs to a session. -/
def endSession (mechanism : Mechanism μ) (pace : Pace μ W) : Pace μ W :=
  { pace.restart mechanism with canAuthenticated := false }

def protocol (mechanism : Mechanism μ) : Protocol State Mode (Pace μ W) W where
  name _ := name
  shapes _ := shapes
  initial := .idle
  mode := State.mode
  transition pace world step state :=
    let outcome := pace.act mechanism world step state
    .ok ⟨outcome.next, outcome.pace, outcome.world,
      outcome.notes.foldl (Note.recordIn step.protocol) step.context, outcome.stop⟩
  reset pace world := (pace.endSession mechanism, world)
  attach storage pace := { pace with storage := some storage }
  secInfos pace _ := pace.options.infos

end

end Pace

end SmartCard
