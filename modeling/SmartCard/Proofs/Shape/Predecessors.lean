import SmartCard.Proofs.Shape.Precedence

/-!
# What predecessors matter to

A shape looks at the commands that a command was derived from in one check only, that of secure
messaging, and it looks for one mode there. So predecessors matter for the modes that they use, and
more modes can only help where one is required and only hurt where one is forbidden.
-/

namespace SmartCard

/-- The command, or one that it was derived from, uses a mode of secure messaging. -/
def Handle.Uses (handle : Handle) (mode : SecureMessaging) : Prop :=
  ∃ command ∈ handle.chain, command.secureMessaging? = some mode

namespace Shape

/-- A check does not fail on a command. -/
def Passes (shape : Shape) (handle : Handle) (check : Check) : Prop :=
  ∀ status, ¬ shape.Fails handle check status

section

variable {shape : Shape} {handle other : Handle} {check : Check}

theorem passes_iff : shape.Passes handle check ↔ shape.violation? handle check = none := by
  unfold Passes
  constructor
  · intro hpasses
    cases hviolation : shape.violation? handle check with
    | none => rfl
    | some verdict => exact absurd (fails_of_violation? hviolation) (hpasses verdict.status)
  · intro hnone status hfails
    have hsome := hfails.isSome_violation?
    rw [hnone] at hsome
    cases hsome

theorem passes_secureMessaging_iff :
    shape.Passes handle .secureMessaging ↔
      (∀ mode, shape.secureMessaging = .required mode → handle.Uses mode) ∧
        ∀ mode, shape.secureMessaging = .forbidden mode → ¬ handle.Uses mode := by
  constructor
  · intro hpasses
    constructor
    · intro mode hrequired
      by_contra hunused
      refine hpasses _ (.secureMessagingMissing hrequired ?_)
      exact fun command hmem hused => hunused ⟨command, hmem, hused⟩
    · rintro mode hforbidden ⟨command, hmem, hused⟩
      exact hpasses _ (.secureMessagingUsed hforbidden hmem hused)
  · rintro ⟨hrequired, hforbidden⟩ status hfails
    cases hfails with
    | secureMessagingMissing hmode hunused =>
      obtain ⟨command, hmem, hused⟩ := hrequired _ hmode
      exact hunused command hmem hused
    | secureMessagingUsed hmode hmem hused => exact hforbidden _ hmode ⟨_, hmem, hused⟩

/-- All other checks look at the command alone. -/
theorem violation?_eq_of_command_eq (hcommand : handle.command = other.command)
    (hcheck : check ≠ .secureMessaging) :
    shape.violation? handle check = shape.violation? other check := by
  cases check with
  | secureMessaging => exact absurd rfl hcheck
  | _ => simp only [violation?, hcommand]

/-- Why the check of secure messaging fails is told by the constraint, not by the commands. -/
theorem secureMessagingViolation?_eq {constraint : Constraint SecureMessaging}
    {chain chain' : List Command} {verdict verdict' : Verdict}
    (h : secureMessagingViolation? constraint chain = some verdict)
    (h' : secureMessagingViolation? constraint chain' = some verdict') : verdict = verdict' := by
  unfold secureMessagingViolation? at h h'
  cases hmode : constraint.value? with
  | none =>
    rw [hmode] at h
    cases h
  | some mode =>
    rw [hmode] at h h'
    dsimp only at h h'
    split at h
    · cases h
    · split at h'
      · cases h'
      · exact Option.some.inj (h.symm.trans h')

theorem violation?_secureMessaging_eq
    (hpasses : shape.Passes handle .secureMessaging ↔ shape.Passes other .secureMessaging) :
    shape.violation? handle .secureMessaging = shape.violation? other .secureMessaging := by
  rw [passes_iff, passes_iff] at hpasses
  cases hfirst : shape.violation? handle .secureMessaging with
  | none => exact (hpasses.mp hfirst).symm
  | some verdict =>
    cases hsecond : shape.violation? other .secureMessaging with
    | none =>
      rw [hpasses.mpr hsecond] at hfirst
      cases hfirst
    | some verdict' => exact congrArg some (secureMessagingViolation?_eq hfirst hsecond)

theorem verdict_eq_of_passes_iff (hcommand : handle.command = other.command)
    (hpasses : shape.Passes handle .secureMessaging ↔ shape.Passes other .secureMessaging) :
    shape.verdict handle = shape.verdict other := by
  have hviolation : shape.violation? handle = shape.violation? other := by
    funext check
    by_cases hcheck : check = .secureMessaging
    · rw [hcheck]
      exact violation?_secureMessaging_eq hpasses
    · exact violation?_eq_of_command_eq hcommand hcheck
  rw [verdict, verdict, hviolation]

end

/-- Two commands that are alike but for their predecessors get the same verdict if secure messaging
is not constrained, or if both pass that check or neither does; so they do if the same modes are
used. If more modes are used by the second one, it passes where a mode is required and the first one
passes, and the first one passes where a mode is forbidden and the second one does. -/
theorem verdict_of_predecessors (shape : Shape) {handle other : Handle}
    (hcommand : handle.command = other.command) :
    (shape.secureMessaging = .optional → shape.verdict handle = shape.verdict other) ∧
      ((∀ mode, handle.Uses mode → other.Uses mode) →
        (∀ mode, shape.secureMessaging = .required mode →
          shape.Passes handle .secureMessaging → shape.Passes other .secureMessaging) ∧
        ∀ mode, shape.secureMessaging = .forbidden mode →
          shape.Passes other .secureMessaging → shape.Passes handle .secureMessaging) ∧
      ((shape.Passes handle .secureMessaging ↔ shape.Passes other .secureMessaging) →
        shape.verdict handle = shape.verdict other) ∧
      ((∀ mode, handle.Uses mode ↔ other.Uses mode) →
        shape.verdict handle = shape.verdict other) := by
  refine ⟨?_, ?_, verdict_eq_of_passes_iff hcommand, ?_⟩
  · intro hoptional
    apply verdict_eq_of_passes_iff hcommand
    simp [passes_secureMessaging_iff, hoptional]
  · intro huses
    constructor
    · intro mode hrequired hpasses
      rw [passes_secureMessaging_iff, hrequired] at hpasses ⊢
      exact ⟨fun required h => huses required (hpasses.1 required h), nofun⟩
    · intro mode hforbidden hpasses
      rw [passes_secureMessaging_iff, hforbidden] at hpasses ⊢
      exact ⟨nofun, fun forbidden h hused => hpasses.2 forbidden h (huses forbidden hused)⟩
  · intro huses
    apply verdict_eq_of_passes_iff hcommand
    simp only [passes_secureMessaging_iff, huses]

/-- The same modes in another order, one of them twice, and by commands that are otherwise
different. -/
theorem verdict_of_predecessors_rearranged :
    let shape : Shape :=
      { any "Unwrapped" with ins := .required 0x22, secureMessaging := .required .authenticated }
    let plain : Command := ⟨0x00, 0x22, 0xC1, 0xA4, [], none, false⟩
    let marked : Command := ⟨0x08, 0x22, 0xC1, 0xA4, [0x87, 0x01, 0x01], none, false⟩
    let sealed : Command := ⟨0x0C, 0x22, 0xC1, 0xA4, [0x87, 0x01, 0x01], none, false⟩
    let handle : Handle := ⟨.issued 2, plain, [(.issued 1, marked), (.issued 0, sealed)]⟩
    let other : Handle := ⟨.issued 6, plain, [(.issued 5, { sealed with ins := 0x86 }),
      (.issued 4, { marked with data := [] }), (.issued 3, marked)]⟩
    handle.command = other.command ∧ (∀ mode, handle.Uses mode ↔ other.Uses mode) ∧
      shape.verdict other = .success ∧ shape.verdict handle = .success := by
  intro shape plain marked sealed handle other
  have huses : ∀ mode, handle.Uses mode ↔ other.Uses mode := by
    unfold Handle.Uses
    intro mode
    cases mode <;> decide +kernel
  have hother : shape.verdict other = .success := by decide +kernel
  have hcommand : handle.command = other.command := rfl
  obtain ⟨_, _, _, hsame⟩ := verdict_of_predecessors shape hcommand
  exact ⟨hcommand, huses, hother, (hsame huses).trans hother⟩

end Shape

end SmartCard
