import SmartCard.Proofs.Layout.Meaning
import SmartCard.Shape.Basic

/-!
# Status words of violated shapes

Whichever check of a shape fails, the command is answered with an error, never with a warning or
with success.
-/

namespace SmartCard.Shape

section

variable {α : Type} [DecidableEq α] {text : α → String} {field : String} {status : StatusWord}
  {verdict : Verdict}

theorem status_of_fieldViolation? {constraint : Constraint α} {actual : α}
    (h : fieldViolation? constraint text field status actual = some verdict) :
    verdict.status = status := by
  unfold fieldViolation? at h
  split at h
  · exact absurd h nofun
  · rw [← Option.some.inj h]

theorem status_of_classViolation? {constraint : Constraint α} {actual : Option α}
    (h : classViolation? constraint text field status actual = some verdict) :
    verdict.status = status := by
  unfold classViolation? at h
  split at h
  · exact absurd h nofun
  · cases actual with
    | none => rw [← Option.some.inj h]
    | some actual => exact status_of_fieldViolation? h

end

theorem status_of_secureMessagingViolation? {constraint : Constraint SecureMessaging}
    {chain : List Command} {verdict : Verdict}
    (h : secureMessagingViolation? constraint chain = some verdict) :
    verdict.status = .secureMessagingNotSupported := by
  unfold secureMessagingViolation? at h
  split at h
  · exact absurd h nofun
  · split at h
    · exact absurd h nofun
    · rw [← Option.some.inj h]

theorem status_of_lengthViolation? {constraint : Constraint Bool} {command : Command}
    {verdict : Verdict} (h : lengthViolation? constraint command = some verdict) :
    verdict.status = .wrongLength := by
  unfold lengthViolation? at h
  split at h
  · exact absurd h nofun
  · split at h
    · rw [← Option.some.inj h]
    · exact status_of_fieldViolation? h

theorem status_of_dataViolation? {tags : Option LayoutTree} {data : Bytes} {verdict : Verdict}
    (h : dataViolation? tags data = some verdict) :
    verdict.status = .malformedData ∨ verdict.status = .wrongData := by
  unfold dataViolation? at h
  split at h
  · exact absurd h nofun
  · split at h
    · exact absurd h nofun
    · split at h
      · exact .inl (by rw [← Option.some.inj h])
      · dsimp only at h
        split at h
        · exact absurd h nofun
        · next hmatch =>
          rw [← Option.some.inj h]
          exact .inr (LayoutTree.status_verdict_of_not_isMatch (by simpa using hmatch))

theorem isError_of_violation? {shape : Shape} {handle : Handle} {check : Check} {verdict : Verdict}
    (h : shape.violation? handle check = some verdict) : verdict.status.isError = true := by
  cases check with
  | format => rw [status_of_fieldViolation? h]; rfl
  | chaining => rw [status_of_classViolation? h]; rfl
  | secureMessaging => rw [status_of_secureMessagingViolation? h]; rfl
  | channel => rw [status_of_classViolation? h]; rfl
  | ins => rw [status_of_fieldViolation? h]; rfl
  | p1 => rw [status_of_fieldViolation? h]; rfl
  | p2 => rw [status_of_fieldViolation? h]; rfl
  | case => rw [status_of_fieldViolation? h]; rfl
  | extendedLength => rw [status_of_lengthViolation? h]; rfl
  | dataField =>
    rcases status_of_dataViolation? h with h | h <;> rw [h] <;> rfl

/-- A command that does not have a shape is answered with an error. -/
theorem isError_verdict {shape : Shape} {handle : Handle}
    (h : (shape.verdict handle).isMatch = false) :
    (shape.verdict handle).status.isError = true := by
  unfold verdict at *
  cases hfind : Check.all.findSome? (shape.violation? handle) with
  | none =>
    rw [hfind] at h
    exact absurd h nofun
  | some verdict =>
    obtain ⟨check, _, hviolation⟩ := List.exists_of_findSome?_eq_some hfind
    exact isError_of_violation? hviolation

end SmartCard.Shape
