import SmartCard.Pace.Selection
import SmartCard.Shape.Basic

/-!
The shapes of the commands of an authentication.
-/

namespace SmartCard

namespace Pace

/-- Any selection for a mutual authentication. -/
def mseSetAt : String := "MSE:Set AT"
/-- A selection with the data objects it needs. -/
def setAt : String := "Set AT"
def gaEncryptedNonce : String := "General Authenticate Encrypted Nonce"
def gaMapNonce : String := "General Authenticate Map Nonce"
def gaKeyAgreement : String := "General Authenticate Key Agreement"
def gaMutualAuthenticate : String := "General Authenticate Mutual Authentication"
/-- Any step of an authentication. -/
def generalAuthenticate : String := "General Authenticate"

def authenticationDataTag : Tag := ⟨[0x7C], rfl⟩
def encryptedNonceTag : Tag := .context 0#4
def terminalMappingTag : Tag := .context 1#4
def cardMappingTag : Tag := .context 2#4
def terminalKeyTag : Tag := .context 3#4
def cardKeyTag : Tag := .context 4#4
def terminalTokenTag : Tag := .context 5#4
def cardTokenTag : Tag := .context 6#4

/-- The data objects of a selection, in any order. -/
def selectionLayout : DataLayout :=
  ⟨.arbitrary, false,
    [.leaf algorithmTag .required, .leaf passwordTag .required,
      .leaf domainParametersTag .optional, .leaf auxiliaryDataTag .optional,
      (TagLayout.leaf chatTag .optional).withChildren
        [.leaf oidTag .required, .leaf discretionaryDataTag .optional]]⟩

/-- Authentication data with the data object of one step. -/
def stepLayout (inner : Tag) : TagLayout :=
  (TagLayout.leaf authenticationDataTag .required).withChildren [.leaf inner .required]

/-- Authentication data with none of the data objects of the later steps. -/
def emptyLayout : TagLayout :=
  (TagLayout.leaf authenticationDataTag .required).withChildren
    ([terminalMappingTag, terminalKeyTag, terminalTokenTag].map (TagLayout.leaf · .forbidden))

/-- Any selection command. -/
def anySelection (id : String) : Shape :=
  { Shape.any id with ins := .required 0x22, p1 := .required 0xC1, p2 := .required 0xA4 }

/-- A step of an authentication with `layout` as its data field. -/
def stepShape (id : String) (chaining : Constraint Bool) (layout : TagLayout) : Shape :=
  { Shape.any id with
    ins := .required 0x86
    p1 := .required 0x00
    p2 := .required 0x00
    case := .required .case4
    chaining
    tags := some (.ofLayout (.ofTags [layout])) }

/-- The shapes that the protocol refers to. -/
def shapes : List Shape :=
  [anySelection mseSetAt,
    { anySelection setAt with
      case := .required .case3
      chaining := .required false
      tags := some (.ofLayout selectionLayout) },
    stepShape gaEncryptedNonce (.required true) emptyLayout,
    stepShape gaMapNonce (.required true) (stepLayout terminalMappingTag),
    stepShape gaKeyAgreement (.required true) (stepLayout terminalKeyTag),
    stepShape gaMutualAuthenticate (.forbidden true) (stepLayout terminalTokenTag),
    { Shape.any generalAuthenticate with ins := .required 0x86 }]

end Pace

end SmartCard
