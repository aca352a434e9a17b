import SmartCard.CardState.Password
import SmartCard.Fault
import SmartCard.Pace.Algorithm

/-!
What a terminal selects before an authentication: the algorithm, the password and, perhaps, the
authorization that it wants.
-/

namespace SmartCard

namespace Pace

/-- A certificate holder authorization template. -/
structure Chat where
  /-- The terminal type that its role stands for. -/
  terminal : TerminalType
  /-- The whole template, tag included. -/
  encoded : Bytes
deriving DecidableEq

structure Selection where
  oid : Bytes
  algorithm : Algorithm
  password : PasswordRef
  chat : Option Chat
deriving DecidableEq

def algorithmTag : Tag := .context 0#4
def passwordTag : Tag := .context 3#4
def domainParametersTag : Tag := .context 4#4
def auxiliaryDataTag : Tag := ⟨[0x67], rfl⟩
def chatTag : Tag := ⟨[0x7F, 0x4C], rfl⟩
def discretionaryDataTag : Tag := ⟨[0x53], rfl⟩

/-- The content of the first object with a tag, if that is primitive. -/
def content? (tag : Tag) (objects : List Object) : Option Bytes :=
  (Object.atPath? [tag] objects).bind Object.bytes?

namespace Chat

/-- The wording of a role that may be missing. -/
def roleText : Option Bytes → String
  | none => "None"
  | some role => "Some(" ++ Bytes.listing role ++ ")"

/-- The template that an object holds. -/
def ofObject (object : Object) : Except Fault Chat :=
  let role := content? oidTag object.children
  match (role.bind (byteAfter? idRoles)).bind TerminalType.ofReference? with
  | some terminal => .ok ⟨terminal, object.encode⟩
  | none => .error ⟨.wrongData, "unknown terminal role " ++ roleText role⟩

end Chat

namespace Selection

def algorithmOf (options : Options) (objects : List Object) : Except Fault (Bytes × Algorithm) :=
  match content? algorithmTag objects with
  | none => .error ⟨.wrongData, "missing protocol"⟩
  | some oid =>
    match Algorithm.ofOid? oid with
    | none => .error ⟨.wrongData, "unsupported protocol " ++ Bytes.listing oid⟩
    | some algorithm =>
      if options.allows algorithm.mapping then .ok (oid, algorithm)
      else .error ⟨.wrongData, algorithm.mapping.text ++ " not allowed"⟩

def passwordOf (objects : List Object) : Except Fault PasswordRef :=
  match content? passwordTag objects with
  | some [reference] =>
    match PasswordRef.ofReference? reference with
    | some password => .ok password
    | none => .error (.ofStatus .referencedDataNotFound)
  | _ => .error ⟨.wrongData, "invalid password reference"⟩

/-- Domain parameters have to be those of the card, if they are named at all. -/
def checkDomainParameters (options : Options) (objects : List Object) : Except Fault Unit :=
  match content? domainParametersTag objects with
  | none => .ok ()
  | some id =>
    if id = [options.domainParameters] then .ok ()
    else .error ⟨.referencedDataNotFound, "unknown domain parameters " ++ Bytes.listing id⟩

def chatOf (objects : List Object) : Except Fault (Option Chat) :=
  match Object.atPath? [chatTag] objects with
  | none => .ok none
  | some object =>
    match Chat.ofObject object with
    | .ok chat => .ok (some chat)
    | .error fault => .error fault

def ofObjects (options : Options) (objects : List Object) : Except Fault Selection := do
  let (oid, algorithm) ← algorithmOf options objects
  let password ← passwordOf objects
  checkDomainParameters options objects
  let chat ← chatOf objects
  return ⟨oid, algorithm, password, chat⟩

end Selection

end Pace

end SmartCard
