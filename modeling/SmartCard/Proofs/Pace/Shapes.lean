import SmartCard.Proofs.Pace.Transition
import SmartCard.Proofs.Shape.Precedence
import SmartCard.Proofs.Tlv.Canonical

/-!
# The shapes of an authentication

Which commands have the shapes that PACE looks for. The steps of an authentication are told apart by
the data object inside of the authentication data, and an object without content is not looked into:
empty authentication data fits every step that is chained.
-/

namespace SmartCard

namespace LayoutTree

variable {tree : LayoutTree} {node : Node} {id : Nat} {tag : Tag} {objects : List Object}

/-! ### Nodes that leave no choice -/

/-- A node with one child, which is required and describes a first occurrence. -/
theorem checkFrom_single_iff (hchildren : node.children = [id])
    (hclosed : node.allowUnspecified = false)
    (hdescribes : (tree.node id).occurrence = some ⟨tag, 0⟩)
    (hrequired : (tree.node id).requirement = .required) :
    tree.checkFrom node .start objects = .ok () ↔
      ∃ object, objects = [object] ∧ object.tag = tag ∧
        tree.checkContent (tree.node id) object = .ok () := by
  have hcount : tree.requiredCount node = 1 := by simp [requiredCount, hchildren, hrequired]
  have hfound : ∀ other skip, tree.describing? node other skip =
      if tag = other ∧ 0 = skip then some (0, tree.node id) else none := by
    intro other skip
    by_cases hsame : tag = other ∧ 0 = skip
    · simp [describing?, hchildren, hdescribes, hsame]
    · simp [describing?, hchildren, hdescribes, hsame]
  cases objects with
  | nil => simp [checkFrom, hcount, Progress.start]
  | cons object rest =>
    have hhit := hfound object.tag (Progress.start.tally.count object.tag)
    by_cases htag : tag = object.tag
    · rw [if_pos ⟨htag, rfl⟩] at hhit
      rw [checkFrom_cons_of_some hhit]
      -- the one child has come up, and no other describes anything
      have hrest : tree.checkFrom node (Progress.start.hit node.order object.tag 0 (tree.node id))
          rest = .ok () ↔ rest = [] := by
        cases rest with
        | nil => simp [checkFrom, hcount, Progress.hit, Progress.start, hrequired]
        | cons other rest =>
          have hmiss := hfound other.tag
            ((Progress.start.hit node.order object.tag 0 (tree.node id)).tally.count other.tag)
          rw [if_neg] at hmiss
          · rw [checkFrom_cons_of_none hmiss]
            simp [hclosed]
          · rintro ⟨hother, hskip⟩
            simp [Progress.hit, Tally.count_bump, ← hother, ← htag] at hskip
      rw [hrest, hrequired]
      constructor
      · rintro ⟨_, _, hcontent, rfl⟩
        exact ⟨object, rfl, htag.symm, hcontent⟩
      · rintro ⟨other, hobjects, _, hcontent⟩
        cases hobjects
        exact ⟨by decide, fun _ => Nat.le_refl 0, hcontent, rfl⟩
    · rw [if_neg (fun h => htag h.1)] at hhit
      rw [checkFrom_cons_of_none hhit]
      constructor
      · rintro ⟨hopen, _⟩
        rw [hclosed] at hopen
        cases hopen
      · rintro ⟨other, hobjects, hother, _⟩
        cases hobjects
        exact absurd hother.symm htag

/-- A node all of whose children are forbidden. -/
theorem checkFrom_barren_iff (hclosed : node.allowUnspecified = false)
    (hforbidden : ∀ id ∈ node.children, (tree.node id).requirement = .forbidden) :
    tree.checkFrom node .start objects = .ok () ↔ objects = [] := by
  have hcount : tree.requiredCount node = 0 := by
    unfold requiredCount
    rw [List.countP_eq_zero]
    intro id hid
    simp [hforbidden id hid]
  cases objects with
  | nil => simp [checkFrom, hcount]
  | cons object rest =>
    refine iff_of_false ?_ (List.cons_ne_nil _ _)
    intro hok
    cases hhit : tree.describing? node object.tag (Progress.start.tally.count object.tag) with
    | none =>
      rw [checkFrom_cons_of_none hhit, hclosed] at hok
      cases hok.1
    | some hit =>
      obtain ⟨position, child⟩ := hit
      rw [checkFrom_cons_of_some hhit] at hok
      obtain ⟨⟨childId, place⟩, hfind, hpair⟩ := Option.map_eq_some_iff.mp hhit
      cases hpair
      have hmem := List.mem_zipIdx_iff_getElem?.mp (List.mem_of_find?_eq_some hfind)
      exact hok.1 (hforbidden childId (List.mem_of_getElem? hmem))

end LayoutTree

namespace Pace

/-! ### Shapes under their names -/

/-- A selection with the data objects that it needs. -/
def selectionShape : Shape :=
  { anySelection setAt with
    case := .required .case3
    chaining := .required false
    tags := some (.ofLayout selectionLayout) }

/-- Any step of an authentication. -/
def anyStep : Shape :=
  { Shape.any generalAuthenticate with ins := .required 0x86 }

namespace Progress

/-- The data object that the step which is due carries, if it carries one. -/
def inner? : Progress → Option Tag
  | setAtProcessed => none
  | nonceSent => some terminalMappingTag
  | nonceMapped => some terminalKeyTag
  | keyAgreed => some terminalTokenTag

/-- The layout of the step that is due. -/
def layout (progress : Progress) : DataLayout :=
  .ofTags [(progress.inner?.map stepLayout).getD emptyLayout]

/-- The shape of the step that is due. Only the last step is not chained. -/
def shape (progress : Progress) : Shape :=
  { Shape.any progress.due with
    ins := .required 0x86
    p1 := .required 0x00
    p2 := .required 0x00
    case := .required .case4
    chaining := if progress = keyAgreed then .forbidden true else .required true
    tags := some (.ofLayout progress.layout) }

theorem inner?_injective {first second : Progress} {tag : Tag} (hfirst : first.inner? = some tag)
    (hsecond : second.inner? = some tag) : first = second := by
  rw [← hsecond] at hfirst
  revert hfirst
  cases first <;> cases second <;> decide

end Progress

theorem get?_mseSetAt : (Registry.ofList shapes).get? mseSetAt = some (anySelection mseSetAt) := by
  decide +kernel

theorem get?_setAt : (Registry.ofList shapes).get? setAt = some selectionShape := by
  decide +kernel

theorem get?_generalAuthenticate :
    (Registry.ofList shapes).get? generalAuthenticate = some anyStep := by
  decide +kernel

theorem get?_due (progress : Progress) :
    (Registry.ofList shapes).get? progress.due = some progress.shape := by
  cases progress <;> decide +kernel

section

variable {step : Step} {id : String} {shape : Shape}

theorem verdict?_of_get? (hshape : step.registry.get? id = some shape) :
    step.verdict? id = some (shape.verdict step.command) := by
  rw [Step.verdict?, hshape]
  rfl

theorem hasShape_of_get? (hshape : step.registry.get? id = some shape) :
    step.hasShape id = (shape.verdict step.command).isMatch := by
  rw [Step.hasShape, verdict?_of_get? hshape]
  rfl

theorem verdict?_eq (hregistry : step.registry = .ofList shapes)
    (hshape : (Registry.ofList shapes).get? id = some shape) :
    step.verdict? id = some (shape.verdict step.command) :=
  verdict?_of_get? (hregistry ▸ hshape)

theorem hasShape_eq (hregistry : step.registry = .ofList shapes)
    (hshape : (Registry.ofList shapes).get? id = some shape) :
    step.hasShape id = (shape.verdict step.command).isMatch :=
  hasShape_of_get? (hregistry ▸ hshape)

end

/-! ### Commands that fit -/

variable {handle : Handle}

theorem isMatch_anySelection_iff {id : String} :
    ((anySelection id).verdict handle).isMatch = true ↔
      handle.command.ins = 0x22 ∧ handle.command.p1 = 0xC1 ∧ handle.command.p2 = 0xA4 := by
  have hplain : (anySelection id).Plain := ⟨rfl, rfl, rfl, rfl⟩
  rw [hplain.isMatch_iff]
  simp [anySelection, Shape.any, Constraint.Excludes, Constraint.ExcludesField]

theorem isMatch_anyStep_iff :
    (anyStep.verdict handle).isMatch = true ↔ handle.command.ins = 0x86 := by
  have hplain : anyStep.Plain := ⟨rfl, rfl, rfl, rfl⟩
  rw [hplain.isMatch_iff]
  simp [anyStep, Shape.any, Constraint.Excludes, Constraint.ExcludesField]

/-- The authentication data that a layout for a step stands for. -/
structure Template (progress : Progress) (object : Object) : Prop where
  tag : object.tag = authenticationDataTag
  content : object.children = [] ∨
    ∃ child, object.children = [child] ∧ progress.inner? = some child.tag

/-- Where such an object was read from bytes, the bits of the tags tell which objects hold
others. -/
theorem Template.eq_constructed {progress : Progress} {object : Object} {data : Bytes}
    (htemplate : Template progress object) (hobject : Object.decodeAll data = .ok [object]) :
    ∃ content, object = .constructed authenticationDataTag content ∧
      (content = [] ∨
        ∃ inner value, progress.inner? = some inner ∧ content = [.primitive inner value]) := by
  have hfaithful := (Object.decodeAll_eq_ok_iff.mp hobject).faithful object
    (List.mem_singleton_self _)
  have hbits : ∀ inner ∈ progress.inner?, inner.isConstructed = false := by
    cases progress <;> decide
  obtain ⟨hconstructed, hchildren⟩ := hfaithful.eq_constructed (by rw [htemplate.tag]; decide)
  rw [htemplate.tag] at hconstructed
  refine ⟨object.children, hconstructed, ?_⟩
  rcases htemplate.content with hempty | ⟨child, hchild, hinner⟩
  · exact .inl hempty
  · obtain ⟨value, hprimitive⟩ :=
      (hchildren child (hchild ▸ List.mem_singleton_self _)).eq_primitive (hbits _ hinner)
    exact .inr ⟨child.tag, value, hinner, by rw [hchild, ← hprimitive]⟩

section

variable {step : Step}

/-- Authentication data without content has no data object to offer. -/
theorem authenticationData_of_children_eq_nil {object : Object}
    (hobject : Object.decodeAll step.command.command.data = .ok [object])
    (htag : object.tag = authenticationDataTag) (hempty : object.children = []) (inner : Tag) :
    ∃ fault, authenticationData step inner = .error fault ∧ fault.status = ⟨0x6A, 0x80⟩ := by
  have hnone : Object.atPath? [authenticationDataTag, inner] [object] = none := by
    simp [Object.atPath?, Object.withTag?, htag, hempty]
  unfold authenticationData
  rw [hobject]
  dsimp only
  rw [hnone]
  exact ⟨_, rfl, rfl⟩

theorem authenticationData_of_primitive {inner : Tag} {value : Bytes}
    (hdata : Object.decodeAll step.command.command.data =
      .ok [.constructed authenticationDataTag [.primitive inner value]]) :
    authenticationData step inner = .ok value := by
  rw [authenticationData, hdata]
  simp [Object.atPath?, Object.withTag?, Object.tag, Object.children, Object.bytes?]

end

section

variable (progress : Progress)

/-- The nodes of the layout for a step: the data field and the authentication data. -/
theorem node_layout :
    let tree := LayoutTree.ofLayout progress.layout
    (tree.node 0).children = [1] ∧ (tree.node 0).allowUnspecified = false ∧
      (tree.node 1).occurrence = some ⟨authenticationDataTag, 0⟩ ∧
      (tree.node 1).requirement = .required ∧ (tree.node 1).allowUnspecified = false ∧
      (tree.node 1).children ≠ [] := by
  cases progress <;> decide +kernel

/-- Below the authentication data, there is the one data object of the step, or none is
accepted. -/
theorem node_inner :
    let tree := LayoutTree.ofLayout progress.layout
    (progress.inner? = none →
      ∀ id ∈ (tree.node 1).children, (tree.node id).requirement = .forbidden) ∧
    ∀ inner ∈ progress.inner?, (tree.node 1).children = [2] ∧
      (tree.node 2).occurrence = some ⟨inner, 0⟩ ∧
      (tree.node 2).requirement = .required ∧ (tree.node 2).children = [] := by
  cases progress <;> decide +kernel

theorem isMatch_layout_iff {objects : List Object} :
    ((LayoutTree.ofLayout progress.layout).verdict objects).isMatch = true ↔
      ∃ object, objects = [object] ∧ Template progress object := by
  obtain ⟨hroot, hclosed, hoccurrence, hrequired, hbelow, hchildren⟩ := node_layout progress
  obtain ⟨hnone, hsome⟩ := node_inner progress
  rw [LayoutTree.isMatch_verdict_iff, LayoutTree.check,
    LayoutTree.checkFrom_single_iff hroot hclosed hoccurrence hrequired]
  refine exists_congr fun object => and_congr_right fun _ => ?_
  rw [LayoutTree.checkContent_eq_ok_iff]
  constructor
  · rintro ⟨htag, hcontent⟩
    refine ⟨htag, ?_⟩
    by_cases hempty : object.children = []
    · exact .inl hempty
    · have hcontent := hcontent hempty hchildren
      cases hprogress : progress.inner? with
      | none =>
        rw [LayoutTree.checkFrom_barren_iff hbelow (hnone hprogress)] at hcontent
        exact .inl hcontent
      | some inner =>
        obtain ⟨honly, hdescribes, hneeded, _⟩ := hsome inner hprogress
        rw [LayoutTree.checkFrom_single_iff honly hbelow hdescribes hneeded] at hcontent
        obtain ⟨child, hchild, rfl, _⟩ := hcontent
        exact .inr ⟨child, hchild, rfl⟩
  · rintro ⟨htag, hempty | ⟨child, hchild, hprogress⟩⟩
    · exact ⟨htag, fun hother => absurd hempty hother⟩
    · refine ⟨htag, fun _ _ => ?_⟩
      obtain ⟨honly, hdescribes, hneeded, hleaf⟩ := hsome child.tag hprogress
      rw [LayoutTree.checkFrom_single_iff honly hbelow hdescribes hneeded]
      refine ⟨child, hchild, rfl, ?_⟩
      rw [LayoutTree.checkContent_eq_ok_iff]
      exact fun _ hother => absurd hleaf hother

theorem children_layout_ne_nil : ((LayoutTree.ofLayout progress.layout).node 0).children ≠ [] := by
  rw [(node_layout progress).1]
  exact List.cons_ne_nil _ _

/-- The data fields that have the layout of a step. -/
theorem exists_isMatch_layout_iff {data : Bytes} :
    (∃ objects, Object.decodeAll data = .ok objects ∧
        ((LayoutTree.ofLayout progress.layout).verdict objects).isMatch = true) ↔
      ∃ object, Object.decodeAll data = .ok [object] ∧ Template progress object := by
  simp only [isMatch_layout_iff]
  constructor
  · rintro ⟨_, hobject, object, rfl, htemplate⟩
    exact ⟨object, hobject, htemplate⟩
  · rintro ⟨object, hobject, htemplate⟩
    exact ⟨[object], hobject, object, rfl, htemplate⟩

/-- The commands that have the shape of a step. -/
theorem isMatch_shape_iff :
    (progress.shape.verdict handle).isMatch = true ↔
      handle.command.ins = 0x86 ∧ handle.command.p1 = 0x00 ∧ handle.command.p2 = 0x00 ∧
      handle.command.case = .case4 ∧
      handle.command.chaining? = some (decide (progress ≠ .keyAgreed)) ∧
      ∃ object, Object.decodeAll handle.command.data = .ok [object] ∧ Template progress object := by
  have hplain : progress.shape.Plain := ⟨rfl, rfl, rfl, rfl⟩
  have hchaining : ¬ progress.shape.chaining.ExcludesField handle.command.chaining? ↔
      handle.command.chaining? = some (decide (progress ≠ .keyAgreed)) := by
    cases handle.command.chaining? with
    | none => cases progress <;> simp [Progress.shape, Constraint.ExcludesField]
    | some chaining =>
      cases progress <;> cases chaining <;>
        simp [Progress.shape, Constraint.ExcludesField, Constraint.Excludes]
  have hdata : (∀ tree, progress.shape.tags = some tree → (tree.node 0).children ≠ [] →
        ∃ objects, Object.decodeAll handle.command.data = .ok objects ∧
          (tree.verdict objects).isMatch = true) ↔
      ∃ object, Object.decodeAll handle.command.data = .ok [object] ∧ Template progress object := by
    rw [← exists_isMatch_layout_iff]
    constructor
    · exact fun hfits => hfits _ rfl (children_layout_ne_nil progress)
    · intro hfits tree htags _
      cases htags
      exact hfits
  rw [hplain.isMatch_iff, hchaining, hdata]
  simp only [Progress.shape, Constraint.Excludes, not_not]
  tauto

end

/-- A command has the shape of the step that is due. -/
def Fits (handle : Handle) (progress : Progress) : Prop :=
  (Step.mk name (.ofList shapes) (.start handle)).hasShape progress.due = true

theorem fits_iff {progress : Progress} :
    Fits handle progress ↔ (progress.shape.verdict handle).isMatch = true := by
  rw [Fits, hasShape_eq rfl (get?_due progress)]
  rfl

/-- A chained step without a data object. -/
structure IsBlank (command : Command) : Prop where
  ins : command.ins = 0x86
  p1 : command.p1 = 0x00
  p2 : command.p2 = 0x00
  case : command.case = .case4
  chaining : command.chaining? = some true
  data : ∃ object, Object.decodeAll command.data = .ok [object] ∧
    object.tag = authenticationDataTag ∧ object.children = []

/-- A command fits two steps if it is chained and has no data object, and only then. -/
theorem fits_both_iff {first second : Progress} (hdifferent : first ≠ second) :
    Fits handle first ∧ Fits handle second ↔
      first ≠ .keyAgreed ∧ second ≠ .keyAgreed ∧ IsBlank handle.command := by
  rw [fits_iff, fits_iff, isMatch_shape_iff, isMatch_shape_iff]
  constructor
  · rintro ⟨⟨hins, hp1, hp2, hcase, hfirst, object, hobject, htag, hcontent⟩,
      _, _, _, _, hsecond, other, hother, _, hcontent'⟩
    rw [hobject] at hother
    cases hother
    have hchained : first ≠ .keyAgreed ∧ second ≠ .keyAgreed := by
      rw [hfirst] at hsecond
      revert hsecond hdifferent
      cases first <;> cases second <;> decide
    have hempty : object.children = [] := by
      rcases hcontent with hempty | ⟨child, hchild, hinner⟩
      · exact hempty
      rcases hcontent' with hempty | ⟨other, hother, hinner'⟩
      · exact hempty
      rw [hchild] at hother
      cases hother
      exact absurd (Progress.inner?_injective hinner hinner') hdifferent
    rw [decide_eq_true hchained.1] at hfirst
    exact ⟨hchained.1, hchained.2, hins, hp1, hp2, hcase, hfirst, object, hobject, htag, hempty⟩
  · rintro ⟨hfirst, hsecond, hins, hp1, hp2, hcase, hchaining, object, hobject, htag, hempty⟩
    rw [decide_eq_true hfirst, decide_eq_true hsecond]
    exact ⟨⟨hins, hp1, hp2, hcase, hchaining, object, hobject, htag, .inl hempty⟩,
      hins, hp1, hp2, hcase, hchaining, object, hobject, htag, .inl hempty⟩

end Pace

end SmartCard
