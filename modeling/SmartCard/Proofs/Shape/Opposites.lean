import Mathlib.Logic.Basic
import SmartCard.Proofs.Shape.Predecessors

/-!
# Required and forbidden values

To require a value of a field and to forbid it are opposites: of the commands that have a shape
otherwise, each has it with one of the two constraints and not with the other. That takes a command
that has the field. One that does not is ruled out by either constraint.
-/

namespace SmartCard.Shape

/-- The fields that a shape can constrain, with what their values are. -/
inductive Field : Type → Type
  | format : Field Format
  | chaining : Field Bool
  | secureMessaging : Field SecureMessaging
  | channel : Field UInt8
  | ins : Field UInt8
  | p1 : Field UInt8
  | p2 : Field UInt8
  | case : Field Case
  | extendedLength : Field Bool

namespace Field

variable {α : Type}

def check : Field α → Check
  | format => .format
  | chaining => .chaining
  | secureMessaging => .secureMessaging
  | channel => .channel
  | ins => .ins
  | p1 => .p1
  | p2 => .p2
  | case => .case
  | extendedLength => .extendedLength

/-- The status word that a wrong value calls for. -/
def status : Field α → StatusWord
  | format => .ofNat 0x6E00
  | chaining => .ofNat 0x6884
  | secureMessaging => .ofNat 0x6882
  | channel => .ofNat 0x6881
  | ins => .ofNat 0x6D00
  | p1 => .ofNat 0x6A86
  | p2 => .ofNat 0x6A86
  | case => .ofNat 0x6700
  | extendedLength => .ofNat 0x6700

/-- The commands that have a field: proprietary classes encode no chaining and no channel, and
without data and expected length there is no length field. -/
def Present (command : Command) : Field α → Prop
  | chaining => command.cla < 0xC0
  | channel => command.cla < 0xC0
  | extendedLength => command.case ≠ .case1
  | _ => True

instance (command : Command) (field : Field α) : Decidable (field.Present command) :=
  match field with
  | chaining | channel => inferInstanceAs (Decidable (command.cla < 0xC0))
  | extendedLength => inferInstanceAs (Decidable (command.case ≠ .case1))
  | format | secureMessaging | ins | p1 | p2 | case => .isTrue trivial

/-- The value of a field. Secure messaging may be used with several modes, by a command and by what
it was derived from. -/
def Has (handle : Handle) : Field α → α → Prop
  | format, value => handle.command.format = value
  | chaining, value => handle.command.chaining? = some value
  | secureMessaging, mode => handle.Uses mode
  | channel, value => handle.command.channel? = some value
  | ins, value => handle.command.ins = value
  | p1, value => handle.command.p1 = value
  | p2, value => handle.command.p2 = value
  | case, value => handle.command.case = value
  | extendedLength, value => handle.command.extended = value

/-- What a constraint on a field demands of a command. -/
def Meets (handle : Handle) (field : Field α) : Constraint α → Prop
  | .optional => True
  | .required value => field.Present handle.command ∧ field.Has handle value
  | .forbidden value => field.Present handle.command ∧ ¬ field.Has handle value

end Field

/-- The same shape with a constraint in the place of the one on a field. -/
def constrain {α : Type} (shape : Shape) : Field α → Constraint α → Shape
  | .format, constraint => { shape with format := constraint }
  | .chaining, constraint => { shape with chaining := constraint }
  | .secureMessaging, constraint => { shape with secureMessaging := constraint }
  | .channel, constraint => { shape with channel := constraint }
  | .ins, constraint => { shape with ins := constraint }
  | .p1, constraint => { shape with p1 := constraint }
  | .p2, constraint => { shape with p2 := constraint }
  | .case, constraint => { shape with case := constraint }
  | .extendedLength, constraint => { shape with extendedLength := constraint }

/-! ### The check of the field -/

theorem format_eq_proprietary_iff {cla : UInt8} :
    Class.format cla = .proprietary ↔ ¬ cla < 0xC0 := by
  unfold Class.format
  by_cases hlow : cla < 0x80
  · have hclass : cla < 0xC0 := UInt8.lt_trans hlow (by decide)
    simp [hlow, hclass]
  · by_cases hclass : cla < 0xC0 <;> simp [hlow, hclass]

theorem isSome_chaining?_iff {command : Command} :
    command.chaining?.isSome = true ↔ command.cla < 0xC0 := by
  unfold Command.chaining? Class.chaining?
  by_cases hclass : command.cla < 0xC0 <;> simp [format_eq_proprietary_iff, hclass]

theorem isSome_channel?_iff {command : Command} :
    command.channel?.isSome = true ↔ command.cla < 0xC0 := by
  unfold Command.channel? Class.channel?
  by_cases hclass : command.cla < 0xC0
  · simp only [format_eq_proprietary_iff, hclass, not_true_eq_false, if_false, iff_true]
    split <;> rfl
  · simp [format_eq_proprietary_iff, hclass]

section

variable {α : Type} {shape : Shape} {handle : Handle} {field : Field α} {constraint : Constraint α}
  {check : Check}

theorem not_excludesField_iff {actual : Option α} :
    ¬ constraint.ExcludesField actual ↔
      match constraint with
      | .optional => True
      | .required value => actual.isSome = true ∧ actual = some value
      | .forbidden value => actual.isSome = true ∧ actual ≠ some value := by
  cases constraint <;> cases actual <;> simp [Constraint.ExcludesField, Constraint.Excludes]

theorem passes_constrain_iff :
    (shape.constrain field constraint).Passes handle field.check ↔
      field.Meets handle constraint := by
  rw [passes_iff, ← Option.not_isSome_iff_eq_none]
  cases field with
  | format | ins | p1 | p2 | case =>
    rw [Field.check, violation?, isSome_fieldViolation?_iff]
    cases constraint <;>
      simp [constrain, Field.Meets, Field.Present, Field.Has, Constraint.Excludes]
  | chaining =>
    rw [Field.check, violation?, isSome_classViolation?_iff, not_excludesField_iff,
      isSome_chaining?_iff]
    cases constraint <;> simp [constrain, Field.Meets, Field.Present, Field.Has]
  | channel =>
    rw [Field.check, violation?, isSome_classViolation?_iff, not_excludesField_iff,
      isSome_channel?_iff]
    cases constraint <;> simp [constrain, Field.Meets, Field.Present, Field.Has]
  | secureMessaging =>
    rw [Option.not_isSome_iff_eq_none, ← passes_iff, Field.check, passes_secureMessaging_iff]
    cases constraint <;> simp [constrain, Field.Meets, Field.Present, Field.Has]
  | extendedLength =>
    rw [Field.check, violation?, isSome_lengthViolation?_iff]
    cases constraint <;>
      simp [constrain, Field.Meets, Field.Present, Field.Has, Constraint.Excludes]

/-- The other checks do not look at the field. -/
theorem violation?_constrain_of_ne (hcheck : check ≠ field.check) :
    (shape.constrain field constraint).violation? handle check = shape.violation? handle check := by
  cases field <;> cases check <;> first | rfl | exact absurd rfl hcheck

theorem Fails.status_eq {status : StatusWord} (h : shape.Fails handle field.check status) :
    status = field.status := by
  cases field <;> cases h <;> rfl

/-! ### The verdict -/

/-- If a command has a shape, then only a constraint that is put in can rule it out. -/
theorem fails_constrain (hmatch : (shape.verdict handle).isMatch = true) {status : StatusWord}
    (h : (shape.constrain field constraint).Fails handle check status) : check = field.check := by
  by_contra hcheck
  have hsome := h.isSome_violation?
  rw [violation?_constrain_of_ne hcheck, violation?_eq_none_of_isMatch hmatch] at hsome
  cases hsome

theorem isMatch_constrain_iff (hmatch : (shape.verdict handle).isMatch = true) :
    ((shape.constrain field constraint).verdict handle).isMatch = true ↔
      field.Meets handle constraint := by
  have hfield : (shape.constrain field constraint).Passes handle field.check ↔
      field.Meets handle constraint := passes_constrain_iff
  rw [isMatch_iff_not_fails, ← hfield]
  constructor
  · exact fun hholds => hholds field.check
  · intro hpasses check status hfails
    obtain rfl := fails_constrain hmatch hfails
    exact hpasses status hfails

theorem status_verdict_constrain (hmatch : (shape.verdict handle).isMatch = true)
    (hmismatch : ((shape.constrain field constraint).verdict handle).isMatch = false) :
    ((shape.constrain field constraint).verdict handle).status = field.status := by
  rcases holds_or_failsFirst (shape.constrain field constraint) handle with
    ⟨hverdict, _⟩ | ⟨check, status, hfirst⟩
  · rw [hverdict] at hmismatch
    cases hmismatch
  · obtain rfl := fails_constrain hmatch hfirst.fails
    rw [hfirst.status_verdict, hfirst.fails.status_eq]

end

/-- If a command has a shape, such as one that leaves a field open, and it has that field, then
it has the shape that requires a value or the one that forbids it, and not both. Without the field
it has neither. A verdict against it has the status word of the field. -/
theorem verdict_required_forbidden {α : Type} {shape : Shape} {handle : Handle}
    (hmatch : (shape.verdict handle).isMatch = true) (field : Field α) (value : α) :
    let required := (shape.constrain field (.required value)).verdict handle
    let forbidden := (shape.constrain field (.forbidden value)).verdict handle
    (field.Present handle.command → Xor (required.isMatch = true) (forbidden.isMatch = true)) ∧
      (¬ field.Present handle.command → required.isMatch = false ∧ forbidden.isMatch = false) ∧
      (required.isMatch = false → required.status = field.status) ∧
      (forbidden.isMatch = false → forbidden.status = field.status) := by
  intro required forbidden
  have hrequired : required.isMatch = true ↔
      field.Present handle.command ∧ field.Has handle value := isMatch_constrain_iff hmatch
  have hforbidden : forbidden.isMatch = true ↔
      field.Present handle.command ∧ ¬ field.Has handle value := isMatch_constrain_iff hmatch
  refine ⟨?_, ?_, status_verdict_constrain hmatch, status_verdict_constrain hmatch⟩
  · intro hpresent
    rw [hrequired, hforbidden]
    by_cases hvalue : field.Has handle value
    · exact .inl ⟨⟨hpresent, hvalue⟩, fun hnot => hnot.2 hvalue⟩
    · exact .inr ⟨⟨hpresent, hvalue⟩, fun hhas => hvalue hhas.2⟩
  · intro habsent
    constructor
    · exact Bool.eq_false_iff.mpr fun hholds => habsent (hrequired.mp hholds).1
    · exact Bool.eq_false_iff.mpr fun hholds => habsent (hforbidden.mp hholds).1

/-- A proprietary command without data, unwrapped from one that was authenticated: it satisfies a
required mode through its predecessor, and no constraint on its channel or its length field. -/
theorem verdict_required_forbidden_proprietary :
    let shape : Shape := { any "Proprietary" with ins := .required 0x10 }
    let handle : Handle := ⟨.issued 1, ⟨0xC0, 0x10, 0x00, 0x00, [], none, false⟩,
      [(.issued 0, ⟨0x0C, 0x10, 0x00, 0x00, [0x87, 0x01, 0x01], none, false⟩)]⟩
    (shape.verdict handle).isMatch = true ∧
      ((shape.constrain .secureMessaging (.forbidden .authenticated)).verdict handle).status =
        .ofNat 0x6882 ∧
      (((shape.constrain .channel (.required 0)).verdict handle).isMatch = false ∧
        ((shape.constrain .channel (.forbidden 0)).verdict handle).isMatch = false) ∧
      ((shape.constrain .extendedLength (.forbidden true)).verdict handle).status =
        .ofNat 0x6700 := by
  intro shape handle
  have hmatch : (shape.verdict handle).isMatch = true := by decide +kernel
  obtain ⟨_, _, _, hmode⟩ := verdict_required_forbidden hmatch .secureMessaging .authenticated
  obtain ⟨_, hchannel, _⟩ := verdict_required_forbidden hmatch .channel 0
  obtain ⟨_, hlength, _, hextended⟩ := verdict_required_forbidden hmatch .extendedLength true
  refine ⟨hmatch, hmode (by decide +kernel), hchannel (by decide), ?_⟩
  exact hextended (hlength (by decide)).2

end SmartCard.Shape
