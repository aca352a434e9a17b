import SmartCard.Tlv.Object

/-!
Password authenticated connection establishment: the algorithms a terminal can ask for, their
object identifiers, and the options of a card.
-/

namespace SmartCard

namespace Pace

/-- How the nonce is mapped to the generator of the key agreement. -/
inductive Mapping where
  /-- Generic mapping over a finite field. -/
  | dhGm
  /-- Generic mapping over an elliptic curve. -/
  | ecdhGm
  /-- Integrated mapping over a finite field. -/
  | dhIm
  /-- Integrated mapping over an elliptic curve. -/
  | ecdhIm
  /-- Chip authentication mapping. -/
  | ecdhCam
deriving DecidableEq, Repr

namespace Mapping

def all : List Mapping :=
  [dhGm, ecdhGm, dhIm, ecdhIm, ecdhCam]

def bit : Mapping → UInt8
  | dhGm => 0x01
  | ecdhGm => 0x02
  | dhIm => 0x04
  | ecdhIm => 0x08
  | ecdhCam => 0x10

/-- The component of an object identifier that stands for a mapping. -/
def component : Mapping → UInt8
  | dhGm => 1
  | ecdhGm => 2
  | dhIm => 3
  | ecdhIm => 4
  | ecdhCam => 6

def text : Mapping → String
  | dhGm => "Mappings(DH_GM)"
  | ecdhGm => "Mappings(ECDH_GM)"
  | dhIm => "Mappings(DH_IM)"
  | ecdhIm => "Mappings(ECDH_IM)"
  | ecdhCam => "Mappings(ECDH_CAM)"

/-- The mapping whose bit is the only one set. -/
def ofBit? (bits : UInt8) : Option Mapping :=
  all.find? (·.bit = bits)

def ofComponent? (component : UInt8) : Option Mapping :=
  all.find? (·.component = component)

end Mapping

/-- The cipher of the secure messaging channel. -/
inductive Cipher where
  | tripleDes
  | aes128
  | aes192
  | aes256
deriving DecidableEq, Repr

namespace Cipher

def all : List Cipher :=
  [tripleDes, aes128, aes192, aes256]

/-- The component of an object identifier that stands for a cipher. -/
def component : Cipher → UInt8
  | tripleDes => 1
  | aes128 => 2
  | aes192 => 3
  | aes256 => 4

def name : Cipher → String
  | tripleDes => "TripleDes"
  | aes128 => "Aes128"
  | aes192 => "Aes192"
  | aes256 => "Aes256"

def ofComponent? (component : UInt8) : Option Cipher :=
  all.find? (·.component = component)

end Cipher

structure Algorithm where
  mapping : Mapping
  cipher : Cipher
deriving DecidableEq, Repr

/-- The object identifier under which all algorithms lie. -/
def idPace : Bytes :=
  [0x04, 0x00, 0x7F, 0x00, 0x07, 0x02, 0x02, 0x04]

/-- The object identifier under which the roles of terminals lie. -/
def idRoles : Bytes :=
  [0x04, 0x00, 0x7F, 0x00, 0x07, 0x03, 0x01, 0x02]

/-- The single byte that follows `stem`. -/
def byteAfter? (stem bytes : Bytes) : Option UInt8 :=
  match bytes.drop stem.length with
  | [last] => if bytes.take stem.length = stem then some last else none
  | _ => none

namespace Algorithm

def oid (algorithm : Algorithm) : Bytes :=
  idPace ++ [algorithm.mapping.component, algorithm.cipher.component]

def ofOid? (oid : Bytes) : Option Algorithm :=
  match oid.drop idPace.length with
  | [mapping, cipher] =>
    if oid.take idPace.length = idPace then
      match Mapping.ofComponent? mapping, Cipher.ofComponent? cipher with
      | some mapping, some cipher => some ⟨mapping, cipher⟩
      | _, _ => none
    else
      none
  | _ => none

end Algorithm

structure Options where
  /-- The bits of the mappings that terminals may ask for. -/
  mappings : UInt8
  /-- The number of the standardized domain parameters. -/
  domainParameters : UInt8
deriving DecidableEq, Repr

/-- The number of the curve brainpoolP256r1. -/
def defaultDomainParameters : UInt8 := 13

namespace Options

def standard : Options :=
  ⟨0x1F, defaultDomainParameters⟩

def allows (options : Options) (mapping : Mapping) : Bool :=
  options.mappings &&& mapping.bit = mapping.bit

end Options

def oidTag : Tag := ⟨[0x06], rfl⟩
def integerTag : Tag := ⟨[0x02], rfl⟩
def sequenceTag : Tag := ⟨[0x30], rfl⟩

/-- The version that cards advertise. -/
def version : UInt8 := 2

/-- What a card advertises: each mapping it allows, with AES-128. -/
def Options.infos (options : Options) : List Object :=
  (Mapping.all.filter options.allows).map fun mapping =>
    .constructed sequenceTag
      [.primitive oidTag (Algorithm.oid ⟨mapping, .aes128⟩), .primitive integerTag [version],
        .primitive integerTag [options.domainParameters]]

end Pace

end SmartCard
