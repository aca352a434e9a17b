import SmartCard.Proofs.Layout.Occurrences
import SmartCard.Proofs.Pace.Shapes

/-!
# What the shapes promise

The protocol reads the data field of a command twice: a shape looks for data objects in it, and then
they are fetched by their tags. What fits a shape has the objects that are fetched, of the right
kind and once, so what can still go wrong is told by what is in them, not by what is missing. Only
the authentication data of a step may be empty.
-/

namespace SmartCard

namespace Pace

/-! ### The data objects of a selection -/

/-- The tags of the data objects that a selection may have. -/
def selectionTags : List Tag :=
  [algorithmTag, passwordTag, domainParametersTag, auxiliaryDataTag, chatTag]

/-- Data objects to select with: an algorithm and a password, each in one primitive object, and of
the others one at most. -/
structure Selectable (objects : List Object) : Prop where
  algorithm : ∃ oid, objects.filter (·.tag = algorithmTag) = [.primitive algorithmTag oid]
  password : ∃ reference,
    objects.filter (·.tag = passwordTag) = [.primitive passwordTag reference]
  once : ∀ tag, objects.countP (·.tag = tag) ≤ 1
  closed : ∀ object ∈ objects, object.tag ∈ selectionTags

/-- The data field of the layout for a selection: one node for each tag, in any order. -/
theorem node_selectionLayout :
    let tree := LayoutTree.ofLayout selectionLayout
    (tree.node 0).children = [1, 2, 3, 4, 5] ∧ (tree.node 0).allowUnspecified = false ∧
      (∀ id ∈ (tree.node 0).children, ∃ tag ∈ selectionTags,
        (tree.node id).occurrence = some ⟨tag, 0⟩) ∧
      ((tree.node 1).occurrence = some ⟨algorithmTag, 0⟩ ∧
        (tree.node 1).requirement = .required) ∧
      (tree.node 2).occurrence = some ⟨passwordTag, 0⟩ ∧ (tree.node 2).requirement = .required := by
  decide +kernel

section

variable {objects : List Object}

/-- What the layout for a selection describes. -/
theorem describing?_selectionLayout {tag : Tag} {skip position : Nat} {child : LayoutTree.Node}
    (h : (LayoutTree.ofLayout selectionLayout).describing?
      ((LayoutTree.ofLayout selectionLayout).node 0) tag skip = some (position, child)) :
    tag ∈ selectionTags ∧ skip = 0 := by
  obtain ⟨_, _, hoccurrences, _⟩ := node_selectionLayout
  obtain ⟨id, hid, rfl, hdescribes⟩ :=
    (LayoutTree.describing?_eq_some_iff (LayoutTree.built_ofLayout _).wellFormed).mp h
  obtain ⟨described, hmem, hoccurrence⟩ := hoccurrences id (List.mem_of_getElem? hid)
  rw [hdescribes] at hoccurrence
  cases hoccurrence
  exact ⟨hmem, rfl⟩

/-- If the one object with a tag was read from bytes, then the bits of the tag tell that it is
primitive. -/
theorem exists_primitive_of_filter {data : Bytes} {tag : Tag} {object : Object}
    (hobjects : Object.decodeAll data = .ok objects) (hbit : tag.isConstructed = false)
    (hfilter : objects.filter (·.tag = tag) = [object]) :
    ∃ value, objects.filter (·.tag = tag) = [.primitive tag value] := by
  obtain ⟨hmem, htag⟩ := List.mem_filter.mp (hfilter ▸ List.mem_singleton_self object)
  obtain rfl : object.tag = tag := of_decide_eq_true htag
  have hfaithful := (Object.decodeAll_eq_ok_iff.mp hobjects).faithful object hmem
  obtain ⟨value, hvalue⟩ := hfaithful.eq_primitive hbit
  exact ⟨value, hfilter.trans (congrArg (fun only => [only]) hvalue)⟩

theorem selectable_of_isMatch {data : Bytes} (hobjects : Object.decodeAll data = .ok objects)
    (hmatch : ((LayoutTree.ofLayout selectionLayout).verdict objects).isMatch = true) :
    Selectable objects := by
  obtain ⟨hchildren, hclosed, _, ⟨hfirst, hfirstRequired⟩, hsecond, hsecondRequired⟩ :=
    node_selectionLayout
  obtain ⟨hadmits, _⟩ :=
    (LayoutTree.isMatch_verdict_iff_admits (LayoutTree.built_ofLayout _) objects).mp hmatch
  have honce := hadmits.countP_le_one hclosed
    fun tag skip position child h => (describing?_selectionLayout h).2
  constructor
  · obtain ⟨object, hobject⟩ := hadmits.exists_filter_eq_singleton
      (by rw [hchildren]; decide) hfirst hfirstRequired (honce algorithmTag)
    exact exists_primitive_of_filter hobjects (by decide) hobject
  · obtain ⟨object, hobject⟩ := hadmits.exists_filter_eq_singleton
      (by rw [hchildren]; decide) hsecond hsecondRequired (honce passwordTag)
    exact exists_primitive_of_filter hobjects (by decide) hobject
  · exact honce
  · intro object hmem
    obtain ⟨first, hobject⟩ := LayoutTree.exists_objectAt?_of_mem hmem
    obtain ⟨position, child, hfound⟩ := hadmits.exists_describing? hclosed hobject
    exact (describing?_selectionLayout hfound).1

end

/-! ### Reading a selection -/

section

variable {options : Options} {objects : List Object} {step : Step}

theorem content?_of_filter {tag : Tag} {value : Bytes}
    (h : objects.filter (·.tag = tag) = [.primitive tag value]) :
    content? tag objects = some value := by
  have hfind : Object.withTag? tag objects = some (.primitive tag value) := by
    rw [Object.withTag?, ← List.head?_filter, h]
    rfl
  rw [content?, Object.atPath?, hfind]
  rfl

theorem append_ne_of_not_prefix {start text : String} (h : ¬ start.toList <+: text.toList)
    (rest : String) : start ++ rest ≠ text := by
  rintro rfl
  exact h (by simp)

/-- No other check gives the reason that the first one gives where there is no algorithm. -/
theorem reason_of_algorithmOf {fault : Fault} {oid : Bytes}
    (hcontent : content? algorithmTag objects = some oid)
    (h : Selection.algorithmOf options objects = .error fault) :
    fault.reason ≠ "missing protocol" := by
  rw [Selection.algorithmOf, hcontent] at h
  dsimp only at h
  split at h
  · cases h
    exact append_ne_of_not_prefix (by decide) _
  · next algorithm _ =>
    split at h
    · cases h
    · cases h
      cases algorithm.mapping <;> decide

theorem reason_of_passwordOf {fault : Fault} (h : Selection.passwordOf objects = .error fault) :
    fault.reason ≠ "missing protocol" := by
  unfold Selection.passwordOf at h
  repeat' split at h
  all_goals cases h <;> decide

theorem reason_of_checkDomainParameters {fault : Fault}
    (h : Selection.checkDomainParameters options objects = .error fault) :
    fault.reason ≠ "missing protocol" := by
  unfold Selection.checkDomainParameters at h
  repeat' split at h
  all_goals cases h
  exact append_ne_of_not_prefix (by decide) _

theorem reason_of_ofObject {object : Object} {fault : Fault}
    (h : Chat.ofObject object = .error fault) : fault.reason ≠ "missing protocol" := by
  unfold Chat.ofObject at h
  dsimp only at h
  split at h
  · cases h
  · cases h
    exact append_ne_of_not_prefix (by decide) _

/-- Data objects are said to lack the algorithm if they do, and only then. -/
theorem ofObjects_eq_missing_iff :
    Selection.ofObjects options objects = .error ⟨.wrongData, "missing protocol"⟩ ↔
      content? algorithmTag objects = none := by
  constructor
  · intro h
    by_contra hcontent
    obtain ⟨oid, hcontent⟩ := Option.ne_none_iff_exists'.mp hcontent
    rcases checks_of_ofObjects h with halgorithm | hpassword | hdomain | ⟨object, hchat⟩
    · exact reason_of_algorithmOf hcontent halgorithm rfl
    · exact reason_of_passwordOf hpassword rfl
    · exact reason_of_checkDomainParameters hdomain rfl
    · exact reason_of_ofObject hchat rfl
  · intro hcontent
    rw [ofObjects_eq, Selection.algorithmOf, hcontent]

theorem readSelection_eq (hshape : step.hasShape setAt = true)
    (hobjects : Object.decodeAll step.command.command.data = .ok objects) :
    readSelection options step = Selection.ofObjects options objects := by
  unfold Step.hasShape at hshape
  unfold readSelection
  cases hverdict : step.verdict? setAt with
  | none =>
    rw [hverdict] at hshape
    cases hshape
  | some verdict =>
    rw [hverdict] at hshape
    have hmatch : verdict.isMatch = true := hshape
    dsimp only
    rw [if_pos hmatch, hobjects]

/-- The shape of a selection finds what there is to be read. -/
theorem selectable_of_fits {handle : Handle}
    (hmatch : (selectionShape.verdict handle).isMatch = true) :
    ∃ objects, Object.decodeAll handle.command.data = .ok objects ∧ Selectable objects := by
  have hchildren : ((LayoutTree.ofLayout selectionLayout).node 0).children ≠ [] := by
    rw [node_selectionLayout.1]
    exact List.cons_ne_nil _ _
  have hnone : Shape.dataViolation? selectionShape.tags handle.command.data = none :=
    Shape.violation?_eq_none_of_isMatch hmatch .dataField
  obtain ⟨objects, hobjects, hverdict⟩ := (Shape.dataViolation?_eq_none_iff hchildren).mp hnone
  exact ⟨objects, hobjects, selectable_of_isMatch hobjects hverdict⟩

end

/-! ### Reading the authentication data of a step -/

section

variable {step : Step} {progress : Progress} {inner : Tag}

/-- Authentication data that was made for a step has its data object, or nothing. -/
theorem authenticationData_of_template {object : Object} (htemplate : Template progress object)
    (hobject : Object.decodeAll step.command.command.data = .ok [object])
    (hinner : progress.inner? = some inner) :
    ∃ content, Object.decodeAll step.command.command.data =
        .ok [.constructed authenticationDataTag content] ∧
      (content = [] ∨ ∃ value, content = [.primitive inner value]) ∧
      ((∃ value, authenticationData step inner = .ok value) ↔ content ≠ []) ∧
      ∀ value, content = [.primitive inner value] → authenticationData step inner = .ok value := by
  obtain ⟨content, rfl, hcontent⟩ := htemplate.eq_constructed hobject
  have hread : ∀ value, content = [.primitive inner value] →
      authenticationData step inner = .ok value := by
    rintro value rfl
    exact authenticationData_of_primitive hobject
  refine ⟨content, hobject, ?_⟩
  rcases hcontent with rfl | ⟨other, value, hother, rfl⟩
  · obtain ⟨fault, hfault, _⟩ := authenticationData_of_children_eq_nil hobject rfl rfl inner
    exact ⟨.inl rfl, by simp [hfault], hread⟩
  · obtain rfl : other = inner := Option.some.inj (hother.symm.trans hinner)
    refine ⟨.inr ⟨value, rfl⟩, ?_, hread⟩
    exact ⟨fun _ => List.cons_ne_nil _ _, fun _ => ⟨value, hread value rfl⟩⟩

/-- The data field of a step, as the tree of its shape has it. -/
theorem violation?_shape_eq_none_iff {handle : Handle} :
    progress.shape.violation? handle .dataField = none ↔
      ∃ object, Object.decodeAll handle.command.data = .ok [object] ∧
        Template progress object :=
  (Shape.dataViolation?_eq_none_iff (children_layout_ne_nil progress)).trans
    (exists_isMatch_layout_iff progress)

theorem template_setAtProcessed_iff {handle : Handle} :
    (∃ object, Object.decodeAll handle.command.data = .ok [object] ∧
        Template .setAtProcessed object) ↔
      Object.decodeAll handle.command.data = .ok [.constructed authenticationDataTag []] := by
  constructor
  · rintro ⟨object, hobject, htemplate⟩
    obtain ⟨content, rfl, rfl | ⟨inner, value, hinner, _⟩⟩ := htemplate.eq_constructed hobject
    · exact hobject
    · cases hinner
  · exact fun hdata => ⟨_, hdata, rfl, .inl rfl⟩

end

/-! ### Commands that fit -/

/-- The commands that have a shape of the protocol have the objects that it reads from them. A
selection that fits is not malformed, and does not lack an algorithm. A step that fits has its data
object or nothing in its authentication data, and it is read if it is there. Only authentication
data with nothing in it passes where a nonce is asked for. -/
theorem reads_of_hasShape {step : Step}
    (hown : ∀ shape ∈ shapes, step.registry.get? shape.id = some shape) :
    (step.hasShape setAt = true →
      ∃ objects, Object.decodeAll step.command.command.data = .ok objects ∧ Selectable objects ∧
        ∀ options, readSelection options step = Selection.ofObjects options objects ∧
          readSelection options step ≠ .error ⟨.malformedData, "invalid Set AT data"⟩ ∧
          readSelection options step ≠ .error ⟨.wrongData, "missing protocol"⟩) ∧
    (∀ progress inner, Progress.inner? progress = some inner → step.hasShape progress.due = true →
      ∃ content, Object.decodeAll step.command.command.data =
          .ok [.constructed authenticationDataTag content] ∧
        (content = [] ∨ ∃ value, content = [.primitive inner value]) ∧
        ((∃ value, authenticationData step inner = .ok value) ↔ content ≠ []) ∧
        ∀ value, content = [.primitive inner value] → authenticationData step inner = .ok value) ∧
    ∃ shape, step.registry.get? gaEncryptedNonce = some shape ∧
      (shape.violation? step.command .dataField = none ↔
        Object.decodeAll step.command.command.data =
          .ok [.constructed authenticationDataTag []]) := by
  have hselection : step.registry.get? setAt = some selectionShape :=
    hown selectionShape (by decide +kernel)
  have hdue : ∀ progress : Progress, step.registry.get? progress.due = some progress.shape :=
    fun progress => hown progress.shape (by cases progress <;> decide +kernel)
  refine ⟨?_, ?_, Progress.shape .setAtProcessed, hdue .setAtProcessed, ?_⟩
  · intro hshape
    obtain ⟨objects, hobjects, hselectable⟩ :=
      selectable_of_fits ((hasShape_of_get? hselection).symm.trans hshape)
    obtain ⟨oid, hfilter⟩ := hselectable.algorithm
    refine ⟨objects, hobjects, hselectable, fun options => ?_⟩
    rw [readSelection_eq hshape hobjects]
    refine ⟨rfl, ?_, ?_⟩
    · intro herror
      rcases status_of_ofObjects herror with hstatus | hstatus <;> cases hstatus
    · rw [Ne, ofObjects_eq_missing_iff, content?_of_filter hfilter]
      exact Option.some_ne_none oid
  · intro progress inner hinner hshape
    rw [hasShape_of_get? (hdue progress)] at hshape
    obtain ⟨_, _, _, _, _, object, hobject, htemplate⟩ := (isMatch_shape_iff progress).mp hshape
    exact authenticationData_of_template htemplate hobject hinner
  · rw [violation?_shape_eq_none_iff, template_setAtProcessed_iff]

/-- A selection with the access number, and a step with two bytes of mapping data. -/
theorem reads_of_hasShape_mapping :
    let selecting : Step := ⟨name, .ofList shapes, .start ⟨.issued 0, ⟨0x00, 0x22, 0xC1, 0xA4,
      [0x80, 0x0A, 0x04, 0x00, 0x7F, 0x00, 0x07, 0x02, 0x02, 0x04, 0x02, 0x02, 0x83, 0x01, 0x02],
      none, false⟩, []⟩⟩
    let mapping : Step := ⟨name, .ofList shapes, .start ⟨.issued 1, ⟨0x10, 0x86, 0x00, 0x00,
      [0x7C, 0x04, 0x81, 0x02, 0xAA, 0xBB], some 256, false⟩, []⟩⟩
    selecting.hasShape setAt = true ∧
      readSelection .standard selecting ≠ .error ⟨.wrongData, "missing protocol"⟩ ∧
      mapping.hasShape gaMapNonce = true ∧
      authenticationData mapping terminalMappingTag = .ok [0xAA, 0xBB] := by
  intro selecting mapping
  have hown : ∀ shape ∈ shapes, (Registry.ofList shapes).get? shape.id = some shape := by
    decide +kernel
  have hselecting : selecting.hasShape setAt = true := by decide +kernel
  have hmapping : mapping.hasShape gaMapNonce = true := by decide +kernel
  have hdecode : Object.decodeAll mapping.command.command.data =
      .ok [.constructed authenticationDataTag [.primitive terminalMappingTag [0xAA, 0xBB]]] := by
    decide +kernel
  have hselection : ∀ shape ∈ shapes, selecting.registry.get? shape.id = some shape := hown
  have hstep : ∀ shape ∈ shapes, mapping.registry.get? shape.id = some shape := hown
  obtain ⟨_, _, _, hread⟩ := (reads_of_hasShape hselection).1 hselecting
  obtain ⟨content, hdata, _, _, hvalue⟩ :=
    (reads_of_hasShape hstep).2.1 .nonceSent terminalMappingTag rfl hmapping
  rw [hdecode] at hdata
  cases hdata
  exact ⟨hselecting, (hread .standard).2.2, hmapping, hvalue _ rfl⟩

end Pace

end SmartCard
