/-!
The class byte of a command: transport format, chaining, secure messaging and logical channel.
-/

namespace SmartCard

/-- The transport format that a class byte indicates. -/
inductive Format where
  | interindustry
  /-- A proprietary class with the interindustry bit layout. -/
  | isoCompatibleProprietary
  | proprietary
deriving DecidableEq, Repr

/-- The secure messaging that a class byte indicates. -/
inductive SecureMessaging where
  | plain
  | proprietary
  /-- The command header is not part of what is protected. -/
  | standard
  /-- The command header is authenticated. -/
  | authenticated
deriving DecidableEq, Repr

namespace Format

def all : List Format :=
  [interindustry, isoCompatibleProprietary, proprietary]

def name : Format → String
  | interindustry => "Interindustry"
  | isoCompatibleProprietary => "IsoCompatibleProprietary"
  | proprietary => "Proprietary"

end Format

namespace SecureMessaging

def all : List SecureMessaging :=
  [plain, proprietary, standard, authenticated]

def name : SecureMessaging → String
  | plain => "None"
  | proprietary => "Proprietary"
  | standard => "Standard"
  | authenticated => "Authenticated"

end SecureMessaging

namespace Class

def format (cla : UInt8) : Format :=
  if cla < 0x80 then .interindustry
  else if cla < 0xC0 then .isoCompatibleProprietary
  else .proprietary

/-- Further interindustry classes count the logical channels from 4. -/
def isFurther (cla : UInt8) : Bool :=
  cla &&& 0x40 ≠ 0

def chaining? (cla : UInt8) : Option Bool :=
  if format cla = .proprietary then none else some (cla &&& 0x10 ≠ 0)

/-- The logical channel, if the class byte encodes one. -/
def channel? (cla : UInt8) : Option UInt8 :=
  if format cla = .proprietary then none
  else if isFurther cla then some (4 + (cla &&& 0x0F))
  else some (cla &&& 0x03)

/-- The secure messaging indication, if the class byte encodes one. -/
def secureMessaging? (cla : UInt8) : Option SecureMessaging :=
  if format cla = .proprietary then none
  else if isFurther cla then
    some (if cla &&& 0x20 ≠ 0 then .standard else .plain)
  else
    match (cla >>> 2) &&& 0x03 with
    | 0 => some .plain
    | 1 => some .proprietary
    | 2 => some .standard
    | _ => some .authenticated

end Class

end SmartCard
