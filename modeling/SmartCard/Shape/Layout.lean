import SmartCard.Shape.Constraint
import SmartCard.Tlv.Tag

/-!
The expected layout of a data field, written as nested descriptions of tags.
-/

namespace SmartCard

/-- Whether described tags have to come in the order of their descriptions. -/
inductive SiblingOrder where
  | strict
  | arbitrary
deriving DecidableEq, Repr

namespace SiblingOrder

def all : List SiblingOrder :=
  [strict, arbitrary]

def name : SiblingOrder → String
  | strict => "Strict"
  | arbitrary => "Arbitrary"

end SiblingOrder

/-- The description of one tag. Several descriptions of a tag among siblings stand for its
consecutive occurrences. -/
inductive TagLayout where
  | mk (tag : Tag) (requirement : Requirement) (order : SiblingOrder) (allowUnspecified : Bool)
    (children : List TagLayout)

namespace TagLayout

/-- A tag whose content is not described. -/
def leaf (tag : Tag) (requirement : Requirement) : TagLayout :=
  mk tag requirement .strict false []

def withChildren : TagLayout → List TagLayout → TagLayout
  | mk tag requirement order allowUnspecified _, children =>
    mk tag requirement order allowUnspecified children

def withOrder : TagLayout → SiblingOrder → TagLayout
  | mk tag requirement _ allowUnspecified children, order =>
    mk tag requirement order allowUnspecified children

def allowingUnspecified : TagLayout → TagLayout
  | mk tag requirement order _ children => mk tag requirement order true children

end TagLayout

/-- The description of a whole data field. -/
structure DataLayout where
  order : SiblingOrder
  /-- Whether outermost tags that are not described are accepted. -/
  allowUnspecified : Bool
  children : List TagLayout

/-- The outermost tags in their order and no others. -/
def DataLayout.ofTags (children : List TagLayout) : DataLayout :=
  ⟨.strict, false, children⟩

end SmartCard
