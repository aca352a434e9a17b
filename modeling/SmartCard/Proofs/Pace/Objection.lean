import SmartCard.Proofs.Pace.Session
import SmartCard.Proofs.Pace.Shapes

/-!
# Objections to a selection

A selection command is looked at from ten sides, in a fixed order. `Stands` says when something is
to be objected, from the bytes of the command, the options of the card and what is stored, and the
first objection that stands decides the answer. The last two are warnings: the selection is kept.
-/

namespace SmartCard.Pace

variable {μ W : Type}

/-! ### What bytes refer to -/

theorem ofReference?_eq_some_iff {byte : UInt8} {password : PasswordRef} :
    PasswordRef.ofReference? byte = some password ↔ byte = password.reference := by
  constructor
  · exact fun h => (reference_of_ofReference? h).symm
  · rintro rfl
    cases password <;> rfl

theorem reference_injective {first second : PasswordRef}
    (h : first.reference = second.reference) : first = second := by
  have hfirst := ofReference?_eq_some_iff.mpr h
  rw [ofReference?_eq_some_iff.mpr rfl] at hfirst
  exact Option.some.inj hfirst

theorem password_unique {objects : List Object} {first second : PasswordRef}
    (hfirst : content? passwordTag objects = some [first.reference])
    (hsecond : content? passwordTag objects = some [second.reference]) : first = second := by
  rw [hfirst] at hsecond
  exact reference_injective (List.cons.inj (Option.some.inj hsecond)).1

theorem terminal_eq_some_iff {byte : UInt8} {terminal : TerminalType} :
    TerminalType.ofReference? byte = some terminal ↔ byte = terminal.reference := by
  constructor
  · intro h
    have hfound := List.find?_some h
    exact (by simpa using hfound : terminal.reference = byte).symm
  · rintro rfl
    cases terminal <;> rfl

theorem byteAfter?_eq_some_iff {stem bytes : Bytes} {last : UInt8} :
    byteAfter? stem bytes = some last ↔ bytes = stem ++ [last] := by
  unfold byteAfter?
  constructor
  · intro h
    split at h
    · next hdrop =>
      split at h
      · next htake =>
        cases h
        calc
          bytes = bytes.take stem.length ++ bytes.drop stem.length :=
            (List.take_append_drop stem.length bytes).symm
          _ = stem ++ [last] := by rw [htake, hdrop]
      · cases h
    · cases h
  · rintro rfl
    simp

/-- The role that stands for a terminal type is its byte behind the identifier of all roles. -/
theorem role_eq_some_iff {role : Option Bytes} {terminal : TerminalType} :
    (role.bind (byteAfter? idRoles)).bind TerminalType.ofReference? = some terminal ↔
      role = some (idRoles ++ [terminal.reference]) := by
  cases role with
  | none => simp
  | some role =>
    simp only [Option.bind_some, Option.bind_eq_some_iff, byteAfter?_eq_some_iff,
      terminal_eq_some_iff, Option.some.injEq]
    constructor
    · rintro ⟨last, rfl, rfl⟩
      rfl
    · rintro rfl
      exact ⟨_, rfl, rfl⟩

theorem ofOid?_eq_some_iff {oid : Bytes} {algorithm : Algorithm} :
    Algorithm.ofOid? oid = some algorithm ↔ oid = algorithm.oid := by
  constructor
  · intro h
    unfold Algorithm.ofOid? at h
    split at h
    · next mapping cipher hdrop =>
      split at h
      · next htake =>
        split at h
        · next hmapping hcipher =>
          cases h
          have hmapping := List.find?_some hmapping
          have hcipher := List.find?_some hcipher
          calc
            oid = oid.take idPace.length ++ oid.drop idPace.length :=
              (List.take_append_drop idPace.length oid).symm
            _ = idPace ++ [mapping, cipher] := by rw [htake, hdrop]
            _ = _ := by simp_all [Algorithm.oid]
        · cases h
      · cases h
    · cases h
  · rintro rfl
    obtain ⟨mapping, cipher⟩ := algorithm
    cases mapping <;> cases cipher <;> rfl

theorem oid_injective {first second : Algorithm} (h : first.oid = second.oid) : first = second := by
  have hfirst := ofOid?_eq_some_iff.mpr h
  rw [ofOid?_eq_some_iff.mpr rfl] at hfirst
  exact Option.some.inj hfirst

/-! ### Objections -/

/-- What can be objected to a selection. -/
inductive Objection where
  | shape
  | algorithm
  | passwordObject
  | reference
  | domainParameters
  | role
  | unset
  | trustPoint
  | blocked
  | suspended

namespace Objection

/-- The place of an objection in the order in which they are looked at. -/
def place : Objection → Nat
  | shape => 1
  | algorithm => 2
  | passwordObject => 3
  | reference => 4
  | domainParameters => 5
  | role => 6
  | unset => 7
  | trustPoint => 8
  | blocked => 9
  | suspended => 10

/-- The status word that an objection calls for; for a command that does not have the shape of a
selection, that is the one of the verdict. -/
def status (verdict : Verdict) : Objection → StatusWord
  | shape => verdict.status
  | algorithm => ⟨0x6A, 0x80⟩
  | passwordObject => ⟨0x6A, 0x80⟩
  | reference => ⟨0x6A, 0x88⟩
  | domainParameters => ⟨0x6A, 0x88⟩
  | role => ⟨0x6A, 0x80⟩
  | unset => ⟨0x6A, 0x88⟩
  | trustPoint => ⟨0x6A, 0x88⟩
  | blocked => ⟨0x63, 0xC0⟩
  | suspended => ⟨0x63, 0xC1⟩

theorem place_injective {first second : Objection} (h : first.place = second.place) :
    first = second := by
  cases first <;> cases second <;> first | rfl | cases h

end Objection

/-- A selection command and what it meets. -/
structure Request (W : Type) where
  command : Handle
  options : Options
  storage : Storage W
  world : W
  /-- The access number was used with success in the session. -/
  resumed : Prop

def Request.verdict (request : Request W) : Verdict :=
  selectionShape.verdict request.command

/-- The data objects of the command. -/
def Request.Holds (request : Request W) (objects : List Object) : Prop :=
  Object.decodeAll request.command.command.data = .ok objects

/-- When an objection stands. Trust points are looked up after the password was read. -/
inductive Stands (request : Request W) : Objection → Prop
  | shape (hverdict : request.verdict.isMatch = false) : Stands request .shape
  | algorithm {objects : List Object} (hobjects : request.Holds objects)
      (hunknown : ∀ algorithm : Algorithm, content? algorithmTag objects = some algorithm.oid →
        request.options.allows algorithm.mapping = false) :
      Stands request .algorithm
  | passwordObject {objects : List Object} (hobjects : request.Holds objects)
      (hlength : ∀ byte, content? passwordTag objects ≠ some [byte]) :
      Stands request .passwordObject
  | reference {objects : List Object} {byte : UInt8} (hobjects : request.Holds objects)
      (hbyte : content? passwordTag objects = some [byte])
      (hunknown : ∀ password : PasswordRef, byte ≠ password.reference) :
      Stands request .reference
  | domainParameters {objects : List Object} {id : Bytes} (hobjects : request.Holds objects)
      (hid : content? domainParametersTag objects = some id)
      (hother : id ≠ [request.options.domainParameters]) :
      Stands request .domainParameters
  | role {objects : List Object} {chat : Object} (hobjects : request.Holds objects)
      (hchat : Object.atPath? [chatTag] objects = some chat)
      (hunknown : ∀ terminal : TerminalType,
        content? oidTag chat.children ≠ some (idRoles ++ [terminal.reference])) :
      Stands request .role
  | unset {objects : List Object} {password : PasswordRef} (hobjects : request.Holds objects)
      (hpassword : content? passwordTag objects = some [password.reference])
      (hunset : (request.storage.password password request.world).1 = none) :
      Stands request .unset
  | trustPoint {objects : List Object} {password : PasswordRef} {chat : Object}
      {terminal : TerminalType} (hobjects : request.Holds objects)
      (hpassword : content? passwordTag objects = some [password.reference])
      (hchat : Object.atPath? [chatTag] objects = some chat)
      (hrole : content? oidTag chat.children = some (idRoles ++ [terminal.reference]))
      (hnone : (request.storage.trustPoint terminal
        (request.storage.password password request.world).2).1 = none) :
      Stands request .trustPoint
  | blocked {objects : List Object} {password : PasswordRef} {stored : PasswordState}
      (hobjects : request.Holds objects)
      (hpassword : content? passwordTag objects = some [password.reference])
      (hstored : (request.storage.password password request.world).1 = some stored)
      (hcounter : stored.retryCounter = some 0) :
      Stands request .blocked
  | suspended {objects : List Object} {stored : PasswordState} (hobjects : request.Holds objects)
      (hpin : content? passwordTag objects = some [PasswordRef.pin.reference])
      (hstored : (request.storage.password .pin request.world).1 = some stored)
      (hcounter : stored.retryCounter = some 1) (hresumed : ¬ request.resumed) :
      Stands request .suspended

/-- An objection stands, and none that is looked at before it does. -/
structure StandsFirst (request : Request W) (objection : Objection) : Prop where
  stands : Stands request objection
  earlier : ∀ other, other.place < objection.place → ¬ Stands request other

/-- The answer to a selection: the status word of the first objection, or success. -/
inductive Answered (request : Request W) : StatusWord → Prop
  | objected {objection : Objection} (hfirst : StandsFirst request objection) :
      Answered request (objection.status request.verdict)
  | unobjected (hnone : ∀ objection, ¬ Stands request objection) : Answered request ⟨0x90, 0x00⟩

/-- None of the first objections stands. -/
def Clear (request : Request W) (count : Nat) : Prop :=
  ∀ objection : Objection, objection.place ≤ count → ¬ Stands request objection

/-- What a check gives decides on the first objections: it succeeds if none of them stands, and it
raises a fault for the first one that does. -/
def Decides (request : Request W) (count : Nat) {α : Type} : Except Fault α → Prop
  | .ok _ => Clear request count
  | .error fault => ∃ objection, objection.place ≤ count ∧ StandsFirst request objection ∧
      fault.status = objection.status request.verdict

section

variable {request : Request W} {count : Nat} {objection : Objection}

theorem clear_zero (request : Request W) : Clear request 0 := by
  intro objection hplace
  cases objection <;> cases hplace

theorem Clear.succ (hclear : Clear request count) (objection : Objection)
    (hplace : objection.place = count + 1) (hfalls : ¬ Stands request objection) :
    Clear request (count + 1) := by
  intro other hother
  rcases Nat.lt_or_ge other.place (count + 1) with hlt | hge
  · exact hclear other (Nat.le_of_lt_succ hlt)
  · have hsame := Objection.place_injective (hplace.trans (Nat.le_antisymm hge hother))
    rwa [← hsame]

theorem Clear.standsFirst (hclear : Clear request count) (hplace : objection.place = count + 1)
    (hstands : Stands request objection) : StandsFirst request objection := by
  refine ⟨hstands, ?_⟩
  intro other hother
  rw [hplace] at hother
  exact hclear other (Nat.le_of_lt_succ hother)

theorem Clear.decides {α : Type} {fault : Fault} (hclear : Clear request count)
    (hplace : objection.place = count + 1) (hstands : Stands request objection)
    (hstatus : fault.status = objection.status request.verdict) :
    Decides request (count + 1) (.error fault : Except Fault α) :=
  ⟨objection, hplace.le, hclear.standsFirst hplace hstands, hstatus⟩

theorem Decides.mono {α β : Type} {fault : Fault} {more : Nat} (hmore : count ≤ more)
    (h : Decides request count (.error fault : Except Fault α)) :
    Decides request more (.error fault : Except Fault β) := by
  obtain ⟨objection, hplace, hfirst, hstatus⟩ := h
  exact ⟨objection, hplace.trans hmore, hfirst, hstatus⟩

/-! ### The checks of the data objects -/

variable {objects : List Object}

theorem Request.Holds.unique {other : List Object} (hobjects : request.Holds objects)
    (hother : request.Holds other) : other = objects := by
  unfold Request.Holds at hobjects hother
  rw [hobjects] at hother
  exact (Except.ok.inj hother).symm

theorem decides_algorithmOf (hobjects : request.Holds objects) (hclear : Clear request 1) :
    Decides request 2 (Selection.algorithmOf request.options objects) := by
  unfold Selection.algorithmOf
  split
  · next hcontent =>
    refine hclear.decides rfl (.algorithm hobjects ?_) rfl
    intro algorithm halgorithm
    rw [hcontent] at halgorithm
    cases halgorithm
  · next oid hcontent =>
    split
    · next hunknown =>
      refine hclear.decides rfl (.algorithm hobjects ?_) rfl
      intro algorithm halgorithm
      rw [hcontent] at halgorithm
      rw [ofOid?_eq_some_iff.mpr (Option.some.inj halgorithm)] at hunknown
      cases hunknown
    · next algorithm hknown =>
      rw [ofOid?_eq_some_iff.mp hknown] at hcontent
      split
      · next hallowed =>
        refine hclear.succ .algorithm rfl ?_
        intro hstands
        cases hstands with
        | algorithm hother hunknown =>
          rw [hobjects.unique hother] at hunknown
          rw [hunknown algorithm hcontent] at hallowed
          cases hallowed
      · next hforbidden =>
        refine hclear.decides rfl (.algorithm hobjects ?_) rfl
        intro other hother
        rw [hcontent] at hother
        rw [← oid_injective (Option.some.inj hother)]
        simpa using hforbidden

theorem decides_passwordOf (hobjects : request.Holds objects) (hclear : Clear request 2) :
    Decides request 4 (Selection.passwordOf objects) := by
  unfold Selection.passwordOf
  split
  · next byte hcontent =>
    have hclear : Clear request 3 := by
      refine hclear.succ .passwordObject rfl ?_
      intro hstands
      cases hstands with
      | passwordObject hother hlength =>
        rw [hobjects.unique hother] at hlength
        exact hlength byte hcontent
    split
    · next password hknown =>
      refine hclear.succ .reference rfl ?_
      intro hstands
      cases hstands with
      | reference hother hbyte hunknown =>
        rw [hobjects.unique hother, hcontent] at hbyte
        cases hbyte
        exact hunknown password (ofReference?_eq_some_iff.mp hknown)
    · next hunknown =>
      refine hclear.decides rfl (.reference hobjects hcontent ?_) rfl
      rintro password rfl
      rw [ofReference?_eq_some_iff.mpr rfl] at hunknown
      cases hunknown
  · next hlength =>
    have hstands : Stands request .passwordObject := .passwordObject hobjects hlength
    exact Decides.mono (Nat.le_succ 3) (hclear.decides (α := PasswordRef) rfl hstands rfl)

theorem decides_checkDomainParameters (hobjects : request.Holds objects)
    (hclear : Clear request 4) :
    Decides request 5 (Selection.checkDomainParameters request.options objects) := by
  unfold Selection.checkDomainParameters
  split
  · next hcontent =>
    refine hclear.succ .domainParameters rfl ?_
    intro hstands
    cases hstands with
    | domainParameters hother hid =>
      rw [hobjects.unique hother, hcontent] at hid
      cases hid
  · next id hcontent =>
    split
    · next hsame =>
      refine hclear.succ .domainParameters rfl ?_
      intro hstands
      cases hstands with
      | domainParameters hother hid hdifferent =>
        rw [hobjects.unique hother, hcontent] at hid
        cases hid
        exact hdifferent hsame
    · next hdifferent =>
      exact hclear.decides rfl (.domainParameters hobjects hcontent hdifferent) rfl

/-- The template of a command is one whose role stands for a terminal type. -/
theorem role_of_ofObject {object : Object} {chat : Chat} (h : Chat.ofObject object = .ok chat) :
    content? oidTag object.children = some (idRoles ++ [chat.terminal.reference]) := by
  unfold Chat.ofObject at h
  dsimp only at h
  split at h
  · next terminal hterminal =>
    cases h
    exact role_eq_some_iff.mp hterminal
  · cases h

theorem decides_chatOf (hobjects : request.Holds objects) (hclear : Clear request 5) :
    Decides request 6 (Selection.chatOf objects) := by
  unfold Selection.chatOf
  split
  · next hnone =>
    refine hclear.succ .role rfl ?_
    intro hstands
    cases hstands with
    | role hother hchat =>
      rw [hobjects.unique hother, hnone] at hchat
      cases hchat
  · next object hsome =>
    cases hofObject : Chat.ofObject object with
    | ok chat =>
      refine hclear.succ .role rfl ?_
      intro hstands
      cases hstands with
      | role hother hchat hunknown =>
        rw [hobjects.unique hother, hsome] at hchat
        cases hchat
        exact hunknown _ (role_of_ofObject hofObject)
    | error fault =>
      refine hclear.decides rfl (.role hobjects hsome ?_) ?_
      · intro terminal hrole
        unfold Chat.ofObject at hofObject
        dsimp only at hofObject
        rw [role_eq_some_iff.mpr hrole] at hofObject
        cases hofObject
      · unfold Chat.ofObject at hofObject
        dsimp only at hofObject
        split at hofObject
        · cases hofObject
        · cases hofObject
          rfl

theorem decides_ofObjects (hobjects : request.Holds objects) (hclear : Clear request 1) :
    Decides request 6 (Selection.ofObjects request.options objects) := by
  rw [ofObjects_eq]
  have halgorithm := decides_algorithmOf hobjects hclear
  split
  · next heq =>
    rw [heq] at halgorithm
    exact halgorithm.mono (by decide)
  next heq =>
  rw [heq] at halgorithm
  have hpassword := decides_passwordOf hobjects halgorithm
  split
  · next heq =>
    rw [heq] at hpassword
    exact hpassword.mono (by decide)
  next heq =>
  rw [heq] at hpassword
  have hdomain := decides_checkDomainParameters hobjects hpassword
  split
  · next heq =>
    rw [heq] at hdomain
    exact hdomain.mono (by decide)
  next heq =>
  rw [heq] at hdomain
  have hchat := decides_chatOf hobjects hdomain
  split
  · next heq =>
    rw [heq] at hchat
    exact hchat.mono (by decide)
  next heq =>
  rw [heq] at hchat
  exact hchat

/-! ### The check of the shape -/

/-- Where the shape of a selection fits, the data field holds data objects. -/
theorem exists_holds (hmatch : request.verdict.isMatch = true) :
    ∃ objects, request.Holds objects := by
  have hfails := Shape.isMatch_iff_not_fails.mp hmatch
  by_contra hnone
  refine hfails .dataField _ (.undecodable rfl (by decide +kernel) ?_)
  intro objects hobjects
  exact hnone ⟨objects, hobjects⟩

variable {step : Step}

theorem decides_readSelection (hregistry : step.registry = .ofList shapes)
    (hcommand : step.command = request.command) :
    Decides request 6 (readSelection request.options step) := by
  have hverdict : step.verdict? setAt = some request.verdict := by
    rw [verdict?_eq hregistry get?_setAt, hcommand]
    rfl
  unfold readSelection
  rw [hverdict]
  dsimp only
  split
  · next hmatch =>
    have hclear : Clear request 1 := by
      refine (clear_zero request).succ .shape rfl ?_
      intro hstands
      cases hstands with
      | shape hmismatch =>
        rw [hmatch] at hmismatch
        cases hmismatch
    obtain ⟨objects, hobjects⟩ := exists_holds hmatch
    rw [hcommand, hobjects]
    exact decides_ofObjects hobjects hclear
  · next hmismatch =>
    have hstands : Stands request .shape := .shape (by simpa using hmismatch)
    exact Decides.mono (by decide) ((clear_zero request).decides (α := Selection) rfl hstands rfl)

/-! ### The checks of what is stored -/

variable {pace : Pace μ W} {password : PasswordRef}

theorem stored_of_readPassword {storage : Storage W} {stored : PasswordState} {world world' : W}
    (hstorage : pace.storage = some storage)
    (h : pace.readPassword password world = (.ok stored, world')) :
    storage.password password world = (some stored, world') := by
  unfold readPassword at h
  rw [hstorage] at h
  dsimp only at h
  rcases hread : storage.password password world with ⟨_ | state, next⟩
  · rw [hread] at h
    cases h
  · rw [hread] at h
    cases h
    rfl

theorem decides_readPassword (hstorage : pace.storage = some request.storage)
    (hobjects : request.Holds objects)
    (hpassword : content? passwordTag objects = some [password.reference])
    (hclear : Clear request 6) :
    Decides request 7 (pace.readPassword password request.world).1 := by
  unfold readPassword
  rw [hstorage]
  dsimp only
  rcases hread : request.storage.password password request.world with ⟨_ | stored, read⟩
  · refine hclear.decides rfl (.unset hobjects hpassword ?_) rfl
    rw [hread]
  · refine hclear.succ .unset rfl ?_
    intro hstands
    cases hstands with
    | unset hother hreference hunset =>
      rw [hobjects.unique hother] at hreference
      rw [← password_unique hpassword hreference, hread] at hunset
      cases hunset

/-- What an accepted selection has as its template. -/
inductive Authorizes (objects : List Object) : Option Chat → Prop
  | absent (hchat : Object.atPath? [chatTag] objects = none) : Authorizes objects none
  | present {chat : Chat} {object : Object} (hchat : Object.atPath? [chatTag] objects = some object)
      (hrole : content? oidTag object.children = some (idRoles ++ [chat.terminal.reference])) :
      Authorizes objects (some chat)

theorem authorizes_of_ofObjects {options : Options} {selection : Selection}
    (h : Selection.ofObjects options objects = .ok selection) :
    Authorizes objects selection.chat := by
  rw [ofObjects_eq] at h
  split at h
  · cases h
  split at h
  · cases h
  split at h
  · cases h
  split at h
  · cases h
  next chat hchatOf =>
  cases h
  unfold Selection.chatOf at hchatOf
  split at hchatOf
  · next hnone =>
    cases hchatOf
    exact .absent hnone
  · next object hsome =>
    cases hofObject : Chat.ofObject object with
    | error fault =>
      rw [hofObject] at hchatOf
      cases hchatOf
    | ok template =>
      rw [hofObject] at hchatOf
      cases hchatOf
      exact .present hsome (role_of_ofObject hofObject)

theorem decides_checkTrust {chat : Option Chat} (hstorage : pace.storage = some request.storage)
    (hobjects : request.Holds objects)
    (hpassword : content? passwordTag objects = some [password.reference])
    (hchat : Authorizes objects chat) (hclear : Clear request 7) :
    Decides request 8
      (pace.checkTrust chat (request.storage.password password request.world).2).1 := by
  unfold checkTrust
  cases hchat with
  | absent hnone =>
    refine hclear.succ .trustPoint rfl ?_
    intro hstands
    cases hstands with
    | trustPoint hother _ hsome =>
      rw [hobjects.unique hother, hnone] at hsome
      cases hsome
  | @present chat object hsome hrole =>
    rw [hstorage]
    dsimp only
    rcases htrust : request.storage.trustPoint chat.terminal
      (request.storage.password password request.world).2 with ⟨_ | trustPoint, read⟩
    · refine hclear.decides rfl (.trustPoint hobjects hpassword hsome hrole ?_) rfl
      rw [htrust]
    · refine hclear.succ .trustPoint rfl ?_
      intro hstands
      cases hstands with
      | trustPoint hother hreference hother' hrole' hnone =>
        rw [hobjects.unique hother] at hreference hother'
        rw [hsome] at hother'
        cases hother'
        rw [hrole] at hrole'
        have hpasswords := password_unique hpassword hreference
        have hroles := List.append_cancel_left (Option.some.inj hrole')
        have hterminals := terminal_eq_some_iff.mpr (List.cons.inj hroles).1
        rw [terminal_eq_some_iff.mpr rfl] at hterminals
        rw [← hpasswords, ← Option.some.inj hterminals, htrust] at hnone
        cases hnone

/-! ### The answer -/

theorem Clear.answered (hclear : Clear request 10) : Answered request ⟨0x90, 0x00⟩ := by
  refine .unobjected ?_
  intro objection
  apply hclear objection
  cases objection <;> decide

theorem isSuspended_iff {stored : PasswordState} :
    pace.isSuspended password stored = true ↔
      password = .pin ∧ stored.retryCounter = some 1 ∧ pace.canAuthenticated = false := by
  simp [isSuspended, PasswordState.isSuspended, and_assoc]

/-- What is stored for the password can only be warned of. -/
theorem answered_selectionStatus {stored : PasswordState} (hobjects : request.Holds objects)
    (hpassword : content? passwordTag objects = some [password.reference])
    (hstored : (request.storage.password password request.world).1 = some stored)
    (hresumed : pace.canAuthenticated = true ↔ request.resumed) (hclear : Clear request 8) :
    Answered request (pace.selectionStatus password stored) := by
  have hsame : ∀ {other : PasswordRef} {fields : List Object}, request.Holds fields →
      content? passwordTag fields = some [other.reference] → other = password := by
    intro other fields hfields hother
    rw [hobjects.unique hfields] at hother
    exact password_unique hother hpassword
  unfold selectionStatus
  split
  · next hblocked =>
    have hcounter : stored.retryCounter = some 0 := of_decide_eq_true hblocked
    have hfirst : StandsFirst request .blocked :=
      hclear.standsFirst rfl (.blocked hobjects hpassword hstored hcounter)
    exact .objected hfirst
  · next hunblocked =>
    have hclear : Clear request 9 := by
      refine hclear.succ .blocked rfl ?_
      intro hstands
      cases hstands with
      | blocked hother hreference hother' hcounter =>
        rw [hsame hother hreference, hstored] at hother'
        cases hother'
        exact hunblocked (decide_eq_true hcounter)
    split
    · next hsuspended =>
      obtain ⟨rfl, hcounter, hunused⟩ := isSuspended_iff.mp hsuspended
      have hunresumed : ¬ request.resumed := by
        intro hresumes
        rw [hresumed.mpr hresumes] at hunused
        cases hunused
      have hfirst : StandsFirst request .suspended :=
        hclear.standsFirst rfl (.suspended hobjects hpassword hstored hcounter hunresumed)
      exact .objected hfirst
    · next hfree =>
      refine Clear.answered (hclear.succ .suspended rfl ?_)
      intro hstands
      cases hstands with
      | suspended hother hpin hother' hcounter hunresumed =>
        have hsame := hsame hother hpin
        rw [hsame, hstored] at hother'
        cases hother'
        have hunused : pace.canAuthenticated = false := by simpa using mt hresumed.mp hunresumed
        exact hfree (isSuspended_iff.mpr ⟨hsame.symm, hcounter, hunused⟩)

/-- What a selection comes to: the authentication under way is forgotten, the mechanism is reset and
nothing else is asked of it, and the selection is kept unless the answer is an error. -/
structure Restarts (mechanism : Mechanism μ) (request : Request W) (pace : Pace μ W)
    (outcome : Outcome μ W) (status : StatusWord) : Prop where
  answer : Answered request status
  stops : outcome.stops = true
  pace : ∃ selection, outcome.pace = { pace.restart mechanism with selection } ∧
    (selection = none ↔ status.isError = true)
  response : ∀ context, (outcome.answered context).response = some (.ofStatus status)
  state : ∀ context state, outcome.settled context state =
    if status.isError then .idle else .authenticating .setAtProcessed

theorem restarts_fail {mechanism : Mechanism μ} {fault : Fault} (pace : Pace μ W) (world : W)
    {α : Type} (hdecides : Decides request count (.error fault : Except Fault α))
    (herror : fault.status.isError = true) :
    Restarts mechanism request pace (.fail fault (pace.restart mechanism) world) fault.status := by
  obtain ⟨objection, _, hfirst, hstatus⟩ := hdecides
  constructor
  case answer =>
    rw [hstatus]
    exact .objected hfirst
  case stops => rfl
  case pace => exact ⟨none, rfl, iff_of_true rfl herror⟩
  case response => exact fun _ => rfl
  case state =>
    intro context state
    rw [settled_fail_of_isError _ _ _ _ _ herror, if_pos herror]

theorem select_restarts (mechanism : Mechanism μ) (hstorage : pace.storage = some request.storage)
    (hoptions : pace.options = request.options)
    (hresumed : pace.canAuthenticated = true ↔ request.resumed)
    (hregistry : step.registry = .ofList shapes) (hcommand : step.command = request.command) :
    ∃ status,
      Restarts mechanism request pace (pace.select mechanism request.world step) status := by
  have hread : (pace.restart mechanism).readPassword = pace.readPassword := rfl
  have htrust : (pace.restart mechanism).checkTrust = pace.checkTrust := rfl
  have hkept : (pace.restart mechanism).options = request.options := hoptions
  have hselection : Decides request 6 (readSelection (pace.restart mechanism).options step) := by
    rw [hkept]
    exact decides_readSelection hregistry hcommand
  unfold select
  simp only [hread, htrust]
  cases hreads : readSelection (pace.restart mechanism).options step with
  | error fault =>
    rw [hreads] at hselection
    exact ⟨_, restarts_fail pace request.world hselection (isError_of_readSelection hreads)⟩
  | ok selection =>
    rw [hreads] at hselection
    obtain ⟨objects, hobjects, hofObjects⟩ := ofObjects_of_readSelection hreads
    rw [hcommand] at hobjects
    have hobjects : request.Holds objects := hobjects
    obtain ⟨_, _, hreference, _⟩ := content_of_ofObjects hofObjects
    have hpassword := decides_readPassword hstorage hobjects hreference hselection
    rcases hpasswords : pace.readPassword selection.password request.world with
      ⟨fault | stored, world'⟩
    · rw [hpasswords] at hpassword
      simp only [hpasswords]
      exact ⟨_, restarts_fail pace world' hpassword (isError_of_readPassword hpasswords)⟩
    · rw [hpasswords] at hpassword
      simp only [hpasswords]
      have hstored := stored_of_readPassword hstorage hpasswords
      have hchats := decides_checkTrust hstorage hobjects hreference
        (authorizes_of_ofObjects hofObjects) hpassword
      rw [hstored] at hchats
      rcases htrusts : pace.checkTrust selection.chat world' with ⟨fault | _, world''⟩
      · rw [htrusts] at hchats
        exact ⟨_, restarts_fail pace world'' hchats (isError_of_checkTrust htrusts)⟩
      · rw [htrusts] at hchats
        have hanswered := answered_selectionStatus hobjects hreference (by rw [hstored]) hresumed
          hchats
        have hwarning := isError_selectionStatus pace selection.password stored
        refine ⟨pace.selectionStatus selection.password stored, hanswered, rfl,
          ⟨some selection, rfl, ?_⟩, fun _ => rfl, ?_⟩
        · simp [hwarning]
        · intro context state
          rw [hwarning]
          rfl

end

end SmartCard.Pace
