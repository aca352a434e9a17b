import SmartCard.Proofs.Shape.Violation

/-!
# The precedence of checks

A shape demands several things of a command, and a command can fall short of more than one of them.
`Fails` says for each check what it takes to fail and which status word that calls for. The checks
are made in the order of their places, and the status of a verdict is that of the first one to fail.
-/

namespace SmartCard

/-- A constraint rules a value out: the value differs from the required one, or it is the forbidden
one. -/
def Constraint.Excludes {α : Type} (constraint : Constraint α) (actual : α) : Prop :=
  match constraint with
  | .optional => False
  | .required value => actual ≠ value
  | .forbidden value => actual = value

/-- The same for a field that a command need not have. Unless the field is unconstrained, it has to
be there. -/
def Constraint.ExcludesField {α : Type} (constraint : Constraint α) (actual : Option α) : Prop :=
  constraint ≠ .optional ∧ ∀ value, actual = some value → constraint.Excludes value

theorem Constraint.isOptional_iff {α : Type} (constraint : Constraint α) :
    constraint.isOptional = true ↔ constraint = .optional := by
  cases constraint <;> simp [isOptional]

theorem Constraint.admits_eq_false_iff {α : Type} [DecidableEq α] (constraint : Constraint α)
    (actual : α) : constraint.admits actual = false ↔ constraint.Excludes actual := by
  cases constraint with
  | optional => simp [admits, requirement, Excludes, Requirement.isSatisfied]
  | required value | forbidden value =>
    simp [admits, requirement, value?, Excludes, Requirement.isSatisfied, Eq.comm (a := actual)]

namespace Shape

/-- The place of a check in the order in which the checks are made. -/
def Check.place : Check → Nat
  | .format => 1
  | .chaining => 2
  | .secureMessaging => 3
  | .channel => 4
  | .ins => 5
  | .p1 => 6
  | .p2 => 7
  | .case => 8
  | .extendedLength => 9
  | .dataField => 10

/-- When a check fails on a command, and the status word it then calls for. -/
inductive Fails (shape : Shape) (handle : Handle) : Check → StatusWord → Prop
  | format (hformat : shape.format.Excludes handle.command.format) :
      Fails shape handle .format (.ofNat 0x6E00)
  | chaining (hchaining : shape.chaining.ExcludesField handle.command.chaining?) :
      Fails shape handle .chaining (.ofNat 0x6884)
  | secureMessagingMissing {mode : SecureMessaging}
      (hrequired : shape.secureMessaging = .required mode)
      (hunused : ∀ command ∈ handle.chain, command.secureMessaging? ≠ some mode) :
      Fails shape handle .secureMessaging (.ofNat 0x6882)
  | secureMessagingUsed {mode : SecureMessaging} {command : Command}
      (hforbidden : shape.secureMessaging = .forbidden mode) (hmem : command ∈ handle.chain)
      (hused : command.secureMessaging? = some mode) :
      Fails shape handle .secureMessaging (.ofNat 0x6882)
  | channel (hchannel : shape.channel.ExcludesField handle.command.channel?) :
      Fails shape handle .channel (.ofNat 0x6881)
  | ins (hins : shape.ins.Excludes handle.command.ins) : Fails shape handle .ins (.ofNat 0x6D00)
  | p1 (hp1 : shape.p1.Excludes handle.command.p1) : Fails shape handle .p1 (.ofNat 0x6A86)
  | p2 (hp2 : shape.p2.Excludes handle.command.p2) : Fails shape handle .p2 (.ofNat 0x6A86)
  | case (hcase : shape.case.Excludes handle.command.case) :
      Fails shape handle .case (.ofNat 0x6700)
  | lengthless (hconstrained : shape.extendedLength ≠ .optional)
      (hcase : handle.command.case = .case1) :
      Fails shape handle .extendedLength (.ofNat 0x6700)
  | extendedLength (hextended : shape.extendedLength.Excludes handle.command.extended) :
      Fails shape handle .extendedLength (.ofNat 0x6700)
  | undecodable {tree : LayoutTree} (htags : shape.tags = some tree)
      (hchildren : (tree.node 0).children ≠ [])
      (hdata : ∀ objects, Object.decodeAll handle.command.data ≠ .ok objects) :
      Fails shape handle .dataField (.ofNat 0x6A85)
  | mismatched {tree : LayoutTree} {objects : List Object} (htags : shape.tags = some tree)
      (hchildren : (tree.node 0).children ≠ [])
      (hdata : Object.decodeAll handle.command.data = .ok objects)
      (hmatch : (tree.verdict objects).isMatch = false) :
      Fails shape handle .dataField (.ofNat 0x6A80)

/-- A check fails, and all that are made before it hold. -/
structure FailsFirst (shape : Shape) (handle : Handle) (check : Check) (status : StatusWord) :
    Prop where
  fails : shape.Fails handle check status
  earlier : ∀ other reason, other.place < check.place → ¬ shape.Fails handle other reason

/-- A shape without the constraints on some of its fields. -/
def relax (shape : Shape) (lifted : Check → Bool) : Shape where
  id := shape.id
  format := if lifted .format then .optional else shape.format
  chaining := if lifted .chaining then .optional else shape.chaining
  secureMessaging := if lifted .secureMessaging then .optional else shape.secureMessaging
  channel := if lifted .channel then .optional else shape.channel
  ins := if lifted .ins then .optional else shape.ins
  p1 := if lifted .p1 then .optional else shape.p1
  p2 := if lifted .p2 then .optional else shape.p2
  case := if lifted .case then .optional else shape.case
  extendedLength := if lifted .extendedLength then .optional else shape.extendedLength
  tags := if lifted .dataField then none else shape.tags

/-! ### What makes a check fail -/

section

variable {α : Type} [DecidableEq α] (constraint : Constraint α) (text : α → String)
  (field : String) (status : StatusWord)

theorem isSome_fieldViolation?_iff (actual : α) :
    (fieldViolation? constraint text field status actual).isSome = true ↔
      constraint.Excludes actual := by
  rw [← constraint.admits_eq_false_iff]
  unfold fieldViolation?
  cases constraint.admits actual <;> simp

theorem isSome_classViolation?_iff (actual : Option α) :
    (classViolation? constraint text field status actual).isSome = true ↔
      constraint.ExcludesField actual := by
  unfold classViolation? Constraint.ExcludesField
  by_cases hoptional : constraint = .optional
  · simp [hoptional, Constraint.isOptional]
  · rw [if_neg (mt constraint.isOptional_iff.mp hoptional)]
    cases actual with
    | none => simp [hoptional]
    | some actual => simp [hoptional, isSome_fieldViolation?_iff]

end

theorem isSome_secureMessagingViolation?_iff (constraint : Constraint SecureMessaging)
    (chain : List Command) :
    (secureMessagingViolation? constraint chain).isSome = true ↔
      (∃ mode, constraint = .required mode ∧
        ∀ command ∈ chain, command.secureMessaging? ≠ some mode) ∨
      ∃ mode, constraint = .forbidden mode ∧
        ∃ command ∈ chain, command.secureMessaging? = some mode := by
  cases constraint with
  | optional => simp [secureMessagingViolation?, Constraint.value?]
  | required mode | forbidden mode =>
    simp [secureMessagingViolation?, Constraint.value?, Constraint.requirement,
      Requirement.isSatisfied]

theorem isSome_lengthViolation?_iff (constraint : Constraint Bool) (command : Command) :
    (lengthViolation? constraint command).isSome = true ↔
      (constraint ≠ .optional ∧ command.case = .case1) ∨ constraint.Excludes command.extended := by
  unfold lengthViolation?
  by_cases hoptional : constraint = .optional
  · simp [hoptional, Constraint.isOptional, Constraint.Excludes]
  · rw [if_neg (mt constraint.isOptional_iff.mp hoptional)]
    by_cases hcase : command.case = .case1
    · simp [hoptional, hcase]
    · simp [hcase, isSome_fieldViolation?_iff]

theorem dataViolation?_eq_some {tags : Option LayoutTree} {data : Bytes} {verdict : Verdict}
    (h : dataViolation? tags data = some verdict) :
    ∃ tree, tags = some tree ∧ (tree.node 0).children ≠ [] ∧
      ((∀ objects, Object.decodeAll data ≠ .ok objects) ∧ verdict.status = .malformedData ∨
        ∃ objects, Object.decodeAll data = .ok objects ∧
          (tree.verdict objects).isMatch = false ∧ verdict.status = .wrongData) := by
  unfold dataViolation? at h
  cases tags with
  | none => cases h
  | some tree =>
    dsimp only at h
    cases hempty : tree.isEmpty with
    | true =>
      rw [hempty] at h
      cases h
    | false =>
      have hchildren : (tree.node 0).children ≠ [] := by
        simpa [LayoutTree.isEmpty] using hempty
      rw [hempty] at h
      refine ⟨tree, rfl, hchildren, ?_⟩
      cases hdata : Object.decodeAll data with
      | error error =>
        rw [hdata] at h
        cases h
        exact .inl ⟨nofun, rfl⟩
      | ok objects =>
        rw [hdata] at h
        dsimp only at h
        cases hmatch : (tree.verdict objects).isMatch with
        | true =>
          rw [hmatch] at h
          cases h
        | false =>
          rw [hmatch] at h
          cases h
          exact .inr ⟨objects, rfl, hmatch, LayoutTree.status_verdict_of_not_isMatch hmatch⟩

theorem dataViolation?_eq_none_iff {tree : LayoutTree} {data : Bytes}
    (hchildren : (tree.node 0).children ≠ []) :
    dataViolation? (some tree) data = none ↔
      ∃ objects, Object.decodeAll data = .ok objects ∧ (tree.verdict objects).isMatch = true := by
  have hempty : tree.isEmpty = false := by simpa [LayoutTree.isEmpty] using hchildren
  unfold dataViolation?
  dsimp only
  rw [hempty]
  cases hdecode : Object.decodeAll data with
  | error error => simp
  | ok objects => simp

theorem isSome_dataViolation? {tree : LayoutTree} {data : Bytes}
    (hchildren : (tree.node 0).children ≠ [])
    (hdata : ∀ objects, Object.decodeAll data = .ok objects →
      (tree.verdict objects).isMatch = false) :
    (dataViolation? (some tree) data).isSome = true := by
  rw [Option.isSome_iff_ne_none, Ne, dataViolation?_eq_none_iff hchildren]
  rintro ⟨objects, hobjects, hmatch⟩
  rw [hdata objects hobjects] at hmatch
  cases hmatch

section

variable {shape : Shape} {handle : Handle} {check : Check} {status : StatusWord}

theorem fails_of_violation? {verdict : Verdict}
    (h : shape.violation? handle check = some verdict) :
    shape.Fails handle check verdict.status := by
  have hsome : (shape.violation? handle check).isSome = true := by rw [h]; rfl
  cases check with
  | format =>
    rw [status_of_fieldViolation? h]
    exact .format ((isSome_fieldViolation?_iff ..).mp hsome)
  | chaining =>
    rw [status_of_classViolation? h]
    exact .chaining ((isSome_classViolation?_iff ..).mp hsome)
  | secureMessaging =>
    rw [status_of_secureMessagingViolation? h]
    rcases (isSome_secureMessagingViolation?_iff ..).mp hsome with
      ⟨mode, hrequired, hunused⟩ | ⟨mode, hforbidden, command, hmem, hused⟩
    · exact .secureMessagingMissing hrequired hunused
    · exact .secureMessagingUsed hforbidden hmem hused
  | channel =>
    rw [status_of_classViolation? h]
    exact .channel ((isSome_classViolation?_iff ..).mp hsome)
  | ins =>
    rw [status_of_fieldViolation? h]
    exact .ins ((isSome_fieldViolation?_iff ..).mp hsome)
  | p1 =>
    rw [status_of_fieldViolation? h]
    exact .p1 ((isSome_fieldViolation?_iff ..).mp hsome)
  | p2 =>
    rw [status_of_fieldViolation? h]
    exact .p2 ((isSome_fieldViolation?_iff ..).mp hsome)
  | case =>
    rw [status_of_fieldViolation? h]
    exact .case ((isSome_fieldViolation?_iff ..).mp hsome)
  | extendedLength =>
    rw [status_of_lengthViolation? h]
    rcases (isSome_lengthViolation?_iff ..).mp hsome with ⟨hconstrained, hcase⟩ | hextended
    · exact .lengthless hconstrained hcase
    · exact .extendedLength hextended
  | dataField =>
    obtain ⟨tree, htags, hchildren, ⟨hdata, hstatus⟩ | ⟨objects, hdata, hmatch, hstatus⟩⟩ :=
      dataViolation?_eq_some h
    · rw [hstatus]
      exact .undecodable htags hchildren hdata
    · rw [hstatus]
      exact .mismatched htags hchildren hdata hmatch

theorem Fails.isSome_violation? (h : shape.Fails handle check status) :
    (shape.violation? handle check).isSome = true := by
  cases h with
  | format h | ins h | p1 h | p2 h | case h => exact (isSome_fieldViolation?_iff ..).mpr h
  | chaining h | channel h => exact (isSome_classViolation?_iff ..).mpr h
  | secureMessagingMissing hrequired hunused =>
    exact (isSome_secureMessagingViolation?_iff ..).mpr (.inl ⟨_, hrequired, hunused⟩)
  | secureMessagingUsed hforbidden hmem hused =>
    exact (isSome_secureMessagingViolation?_iff ..).mpr (.inr ⟨_, hforbidden, _, hmem, hused⟩)
  | lengthless hconstrained hcase =>
    exact (isSome_lengthViolation?_iff ..).mpr (.inl ⟨hconstrained, hcase⟩)
  | extendedLength hextended => exact (isSome_lengthViolation?_iff ..).mpr (.inr hextended)
  | undecodable htags hchildren hdata =>
    rw [violation?, htags]
    exact isSome_dataViolation? hchildren fun objects hok => absurd hok (hdata objects)
  | mismatched htags hchildren hdata hmatch =>
    rw [violation?, htags]
    apply isSome_dataViolation? hchildren
    intro objects hok
    rw [hdata] at hok
    cases hok
    exact hmatch

/-- A check that fails calls for one status word only. -/
theorem Fails.status_unique {other : StatusWord} (h : shape.Fails handle check status)
    (hother : shape.Fails handle check other) : status = other := by
  cases h with
  | undecodable _ _ hdata =>
    cases hother with
    | undecodable => rfl
    | mismatched _ _ hok => exact absurd hok (hdata _)
  | mismatched _ _ hok =>
    cases hother with
    | undecodable _ _ hdata => exact absurd hok (hdata _)
    | mismatched => rfl
  | _ => cases hother <;> rfl

theorem fails_iff :
    shape.Fails handle check status ↔
      ∃ verdict, shape.violation? handle check = some verdict ∧ verdict.status = status := by
  constructor
  · intro h
    obtain ⟨verdict, hviolation⟩ := Option.isSome_iff_exists.mp h.isSome_violation?
    exact ⟨verdict, hviolation, (fails_of_violation? hviolation).status_unique h⟩
  · rintro ⟨verdict, hviolation, rfl⟩
    exact fails_of_violation? hviolation

/-! ### The first check that fails -/

theorem Check.pairwise_place_all :
    Check.all.Pairwise fun first second => first.place < second.place := by
  decide

theorem Check.mem_all (check : Check) : check ∈ Check.all := by
  cases check <;> decide

/-- What comes before a check in the list of all checks has a smaller place. -/
theorem Check.mem_before_iff {before after : List Check}
    (hall : Check.all = before ++ check :: after) (other : Check) :
    other ∈ before ↔ other.place < check.place := by
  have hpairwise := Check.pairwise_place_all
  rw [hall, List.pairwise_append] at hpairwise
  obtain ⟨_, hafter, hbefore⟩ := hpairwise
  constructor
  · intro hmem
    exact hbefore other hmem check List.mem_cons_self
  · intro hlt
    have hmem := Check.mem_all other
    rw [hall, List.mem_append, List.mem_cons] at hmem
    rcases hmem with hmem | rfl | hmem
    · exact hmem
    · omega
    · have hgt := List.rel_of_pairwise_cons hafter hmem
      omega

theorem FailsFirst.verdict_eq (h : shape.FailsFirst handle check status) :
    shape.violation? handle check = some (shape.verdict handle) := by
  obtain ⟨first, hviolation, _⟩ := fails_iff.mp h.fails
  obtain ⟨before, after, hall⟩ := List.append_of_mem (Check.mem_all check)
  -- The search gets to this check, since none that comes before it in the list fails.
  have hfirst : Check.all.findSome? (shape.violation? handle) = some first := by
    rw [List.findSome?_eq_some_iff]
    refine ⟨before, check, after, hall, hviolation, ?_⟩
    intro other hmem
    have hearlier := h.earlier other
    have hplace := (Check.mem_before_iff hall other).mp hmem
    cases hother : shape.violation? handle other with
    | none => rfl
    | some reason => exact absurd (fails_of_violation? hother) (hearlier reason.status hplace)
  rw [verdict, hfirst, hviolation]
  rfl

theorem FailsFirst.status_verdict (h : shape.FailsFirst handle check status) :
    (shape.verdict handle).status = status :=
  (fails_of_violation? h.verdict_eq).status_unique h.fails

theorem FailsFirst.isMatch_verdict (h : shape.FailsFirst handle check status) :
    (shape.verdict handle).isMatch = false := by
  have herror := isError_of_violation? h.verdict_eq
  cases hmatch : (shape.verdict handle).isMatch with
  | false => rfl
  | true =>
    have hsuccess : (shape.verdict handle).status = .success := by
      simpa [Verdict.isMatch, StatusWord.isSuccess] using hmatch
    rw [hsuccess] at herror
    cases herror

/-- Either all checks hold, or there is one that fails before all others. -/
theorem holds_or_failsFirst (shape : Shape) (handle : Handle) :
    (shape.verdict handle = .success ∧ ∀ check status, ¬ shape.Fails handle check status) ∨
      ∃ check status, shape.FailsFirst handle check status := by
  cases hfind : Check.all.findSome? (shape.violation? handle) with
  | none =>
    left
    constructor
    · rw [verdict, hfind]
      rfl
    · intro check status hfails
      obtain ⟨_, hviolation, _⟩ := fails_iff.mp hfails
      have hnone := List.findSome?_eq_none_iff.mp hfind check (Check.mem_all check)
      rw [hviolation] at hnone
      cases hnone
  | some verdict =>
    right
    obtain ⟨before, check, after, hall, hviolation, hbefore⟩ := List.findSome?_eq_some_iff.mp hfind
    refine ⟨check, verdict.status, fails_of_violation? hviolation, ?_⟩
    intro other reason hplace hfails
    obtain ⟨_, hother, _⟩ := fails_iff.mp hfails
    have hnone := hbefore other ((Check.mem_before_iff hall other).mpr hplace)
    rw [hother] at hnone
    cases hnone

theorem isMatch_iff_not_fails :
    (shape.verdict handle).isMatch = true ↔ ∀ check status, ¬ shape.Fails handle check status := by
  constructor
  · intro hmatch
    rcases holds_or_failsFirst shape handle with ⟨_, hholds⟩ | ⟨check, status, hfirst⟩
    · exact hholds
    · rw [hfirst.isMatch_verdict] at hmatch
      cases hmatch
  · intro hholds
    rcases holds_or_failsFirst shape handle with ⟨hverdict, _⟩ | ⟨check, status, hfirst⟩
    · rw [hverdict]
      rfl
    · exact absurd hfirst.fails (hholds check status)

theorem violation?_eq_none_of_isMatch (hmatch : (shape.verdict handle).isMatch = true)
    (check : Check) : shape.violation? handle check = none := by
  cases hviolation : shape.violation? handle check with
  | none => rfl
  | some verdict =>
    exact absurd (fails_of_violation? hviolation) (isMatch_iff_not_fails.mp hmatch check _)

/-- A shape that leaves the class byte open, but for chaining, and the encoding of lengths too. -/
structure Plain (shape : Shape) : Prop where
  format : shape.format = .optional
  secureMessaging : shape.secureMessaging = .optional
  channel : shape.channel = .optional
  extendedLength : shape.extendedLength = .optional

theorem Plain.isMatch_iff (hplain : shape.Plain) :
    (shape.verdict handle).isMatch = true ↔
      ¬ shape.chaining.ExcludesField handle.command.chaining? ∧
      ¬ shape.ins.Excludes handle.command.ins ∧ ¬ shape.p1.Excludes handle.command.p1 ∧
      ¬ shape.p2.Excludes handle.command.p2 ∧ ¬ shape.case.Excludes handle.command.case ∧
      ∀ tree, shape.tags = some tree → (tree.node 0).children ≠ [] →
        ∃ objects, Object.decodeAll handle.command.data = .ok objects ∧
          (tree.verdict objects).isMatch = true := by
  rw [isMatch_iff_not_fails]
  constructor
  · intro hholds
    refine ⟨fun h => hholds _ _ (.chaining h), fun h => hholds _ _ (.ins h),
      fun h => hholds _ _ (.p1 h), fun h => hholds _ _ (.p2 h), fun h => hholds _ _ (.case h), ?_⟩
    intro tree htags hchildren
    cases hdata : Object.decodeAll handle.command.data with
    | error error =>
      exact absurd (.undecodable htags hchildren (by simp [hdata])) (hholds .dataField _)
    | ok objects =>
      refine ⟨objects, rfl, ?_⟩
      by_contra hother
      have hmismatch : (tree.verdict objects).isMatch = false := by simpa using hother
      exact hholds _ _ (.mismatched htags hchildren hdata hmismatch)
  · rintro ⟨hchaining, hins, hp1, hp2, hcase, hdata⟩ check status hfails
    cases hfails with
    | chaining h => exact hchaining h
    | ins h => exact hins h
    | p1 h => exact hp1 h
    | p2 h => exact hp2 h
    | case h => exact hcase h
    | format h => rwa [hplain.format] at h
    | channel h => exact h.1 hplain.channel
    | secureMessagingMissing h | secureMessagingUsed h =>
      rw [hplain.secureMessaging] at h
      cases h
    | lengthless h => exact h hplain.extendedLength
    | extendedLength h => rwa [hplain.extendedLength] at h
    | undecodable htags hchildren hnone =>
      obtain ⟨objects, hobjects, _⟩ := hdata _ htags hchildren
      exact hnone objects hobjects
    | mismatched htags hchildren hobjects hmismatch =>
      obtain ⟨objects, hdecode, hmatch⟩ := hdata _ htags hchildren
      rw [hobjects] at hdecode
      cases hdecode
      rw [hmatch] at hmismatch
      cases hmismatch

/-! ### Constraints that are lifted -/

theorem violation?_relax (shape : Shape) (handle : Handle) (lifted : Check → Bool)
    (check : Check) :
    (shape.relax lifted).violation? handle check =
      if lifted check = true then none else shape.violation? handle check := by
  cases check <;> unfold relax violation? <;> dsimp only <;> split <;> rfl

theorem fails_relax_iff (lifted : Check → Bool) :
    (shape.relax lifted).Fails handle check status ↔
      lifted check = false ∧ shape.Fails handle check status := by
  rw [fails_iff, fails_iff, violation?_relax]
  cases lifted check <;> simp

theorem FailsFirst.relax (h : shape.FailsFirst handle check status) {lifted : Check → Bool}
    (hlifted : lifted check = false) : (shape.relax lifted).FailsFirst handle check status := by
  refine ⟨(fails_relax_iff lifted).mpr ⟨hlifted, h.fails⟩, ?_⟩
  intro other reason hplace hfails
  exact h.earlier other reason hplace ((fails_relax_iff lifted).mp hfails).2

theorem FailsFirst.verdict_relax (h : shape.FailsFirst handle check status)
    {lifted : Check → Bool} (hlifted : lifted check = false) :
    (shape.relax lifted).verdict handle = shape.verdict handle := by
  have hrelaxed := (h.relax hlifted).verdict_eq
  rw [violation?_relax, if_neg (by simp [hlifted]), h.verdict_eq] at hrelaxed
  exact (Option.some.inj hrelaxed).symm

end

/-- The verdict on a command is a match exactly if no check fails. Otherwise it carries the status
word that the first failing check calls for, whatever the later ones would say. Lifting constraints
keeps a match, and it keeps the verdict as long as the first failing check is not among the lifted
ones. -/
theorem verdict_of_first_failure (shape : Shape) (handle : Handle) :
    ((shape.verdict handle).isMatch = true ∧ (shape.verdict handle).status = .ofNat 0x9000 ↔
        ∀ check status, ¬ shape.Fails handle check status) ∧
      ((shape.verdict handle).isMatch = false →
        ∃ check, shape.FailsFirst handle check (shape.verdict handle).status) ∧
      (∀ check status, shape.FailsFirst handle check status →
        (shape.verdict handle).isMatch = false ∧ (shape.verdict handle).status = status) ∧
      ∀ lifted : Check → Bool,
        ((shape.verdict handle).isMatch = true →
          ((shape.relax lifted).verdict handle).isMatch = true) ∧
        ∀ check status, shape.FailsFirst handle check status → lifted check = false →
          (shape.relax lifted).verdict handle = shape.verdict handle := by
  refine ⟨⟨?_, ?_⟩, ?_, ?_, ?_⟩
  · rintro ⟨hmatch, _⟩
    exact isMatch_iff_not_fails.mp hmatch
  · intro hholds
    have hmatch := isMatch_iff_not_fails.mpr hholds
    have hstatus : (shape.verdict handle).status = .success := by
      simpa [Verdict.isMatch, StatusWord.isSuccess] using hmatch
    exact ⟨hmatch, hstatus⟩
  · intro hmatch
    rcases holds_or_failsFirst shape handle with ⟨hverdict, _⟩ | ⟨check, status, hfirst⟩
    · rw [hverdict] at hmatch
      cases hmatch
    · rw [hfirst.status_verdict]
      exact ⟨check, hfirst⟩
  · intro check status hfirst
    exact ⟨hfirst.isMatch_verdict, hfirst.status_verdict⟩
  · intro lifted
    refine ⟨?_, ?_⟩
    · intro hmatch
      have hholds := isMatch_iff_not_fails.mp hmatch
      apply isMatch_iff_not_fails.mpr
      intro check status hfails
      exact hholds check status ((fails_relax_iff lifted).mp hfails).2
    · intro check status hfirst hlifted
      exact hfirst.verdict_relax hlifted

/-- Where both the instruction and a parameter differ, the instruction decides. -/
example :
    let shape : Shape := { any "Update" with ins := .required 0xD6, p1 := .required 0x00 }
    let handle : Handle := .root (.received 0) ⟨0x00, 0xD7, 0x01, 0x00, [], none, false⟩
    (shape.verdict handle).status = .ofNat 0x6D00 := rfl

end Shape

end SmartCard
