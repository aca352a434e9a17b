/-!
Requirements on a field or a tag: it must have a value, must not have it, or may have any.
-/

namespace SmartCard

/-- Whether something must, may or must not be there. -/
inductive Requirement where
  | forbidden
  | optional
  | required
deriving DecidableEq, Repr

namespace Requirement

def all : List Requirement :=
  [forbidden, optional, required]

def name : Requirement → String
  | forbidden => "Forbidden"
  | optional => "Optional"
  | required => "Required"

/-- Whether a requirement holds of something that is there exactly if `present`. -/
def isSatisfied (requirement : Requirement) (present : Bool) : Bool :=
  match requirement with
  | forbidden => !present
  | optional => true
  | required => present

end Requirement

/-- A requirement on the value of a field; an optional field names no value. -/
inductive Constraint (α : Type) where
  | optional
  | required (value : α)
  | forbidden (value : α)
deriving DecidableEq, Repr

namespace Constraint

def requirement {α : Type} : Constraint α → Requirement
  | optional => .optional
  | required _ => .required
  | forbidden _ => .forbidden

/-- The value that is required or forbidden. -/
def value? {α : Type} : Constraint α → Option α
  | optional => none
  | required value => some value
  | forbidden value => some value

def isOptional {α : Type} : Constraint α → Bool
  | optional => true
  | _ => false

/-- Whether a field may have the value `actual`. -/
def admits {α : Type} [DecidableEq α] (constraint : Constraint α) (actual : α) : Bool :=
  constraint.requirement.isSatisfied (constraint.value?.any (· = actual))

/-- Why a field may not have the value `actual`, with values written by `text`. -/
def mismatch {α : Type} (constraint : Constraint α) (text : α → String) (field : String)
    (actual : α) : String :=
  match constraint with
  | required expected => field ++ " " ++ text expected ++ " expected, got " ++ text actual
  | forbidden value => field ++ " must not be " ++ text value
  | optional => field ++ " " ++ text actual ++ " accepted"

end Constraint

end SmartCard
