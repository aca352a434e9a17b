import SmartCard.Proofs.Layout.Likeness

/-!
# Objects by occurrence

Matching looks each object up by the occurrence that it is. So what a node says of a list of objects
is about which object each occurrence is, and, where the order matters, about where the objects
stand. Only the second part depends on the order that is set for the node.
-/

namespace SmartCard.LayoutTree

/-! ### Which object an occurrence is -/

/-- An item that is kept has as many kept ones before it as it had before. -/
theorem getElem?_filter_countP {α : Type} {p : α → Bool} {items : List α} {index : Nat} {item : α}
    (hitem : items[index]? = some item) (hkept : p item = true) :
    (items.filter p)[(items.take index).countP p]? = some item := by
  obtain ⟨hlt, rfl⟩ := List.getElem?_eq_some_iff.mp hitem
  have hsplit : items.filter p =
      (items.take index).filter p ++ items[index] :: (items.drop (index + 1)).filter p := by
    conv_lhs => rw [← List.take_append_drop index items, List.drop_eq_getElem_cons hlt]
    rw [List.filter_append, List.filter_cons_of_pos hkept]
  rw [hsplit, List.countP_eq_length_filter, List.getElem?_append_right (Nat.le_refl _),
    Nat.sub_self, List.getElem?_cons_zero]

theorem countP_take_eq_zero {α : Type} {p : α → Bool} {items : List α} {index : Nat} {item : α}
    (hitem : items[index]? = some item) (hp : p item = true) (honce : items.countP p = 1) :
    (items.take index).countP p = 0 := by
  have hfilter := getElem?_filter_countP hitem hp
  have hlt := (List.getElem?_eq_some_iff.mp hfilter).1
  rw [← List.countP_eq_length_filter, honce] at hlt
  omega

theorem countP_take_succ {α : Type} {items : List α} {index : Nat} {item : α}
    (hitem : items[index]? = some item) (p : α → Bool) :
    (items.take (index + 1)).countP p =
      (items.take index).countP p + if p item = true then 1 else 0 := by
  rw [List.take_add_one, hitem, List.countP_append, Option.toList_some, List.countP_singleton]

theorem exists_of_getElem?_filter {α : Type} {p : α → Bool} {items : List α} {number : Nat}
    {item : α} (h : (items.filter p)[number]? = some item) :
    ∃ index, items[index]? = some item ∧ (items.take index).countP p = number := by
  induction items generalizing number with
  | nil => simp at h
  | cons first rest ih =>
    by_cases hfirst : p first = true
    · rw [List.filter_cons_of_pos hfirst] at h
      cases number with
      | zero => exact ⟨0, by simpa using h, rfl⟩
      | succ number =>
        obtain ⟨index, hindex, hcount⟩ := ih (by simpa using h)
        exact ⟨index + 1, hindex, by simp [hfirst, hcount]⟩
    · rw [List.filter_cons_of_neg hfirst] at h
      obtain ⟨index, hindex, hcount⟩ := ih h
      exact ⟨index + 1, hindex, by simp [hfirst, hcount]⟩

/-- The object that is an occurrence: of those with its tag, the one with `skip` others before
it. -/
def objectAt? (objects : List Object) (occurrence : Occurrence) : Option Object :=
  (objects.filter (·.tag = occurrence.tag))[occurrence.skip]?

theorem occurrenceAt?_of_getElem? {objects : List Object} {index : Nat} {object : Object}
    (hobject : objects[index]? = some object) :
    occurrenceAt? objects index =
      some ⟨object.tag, (objects.take index).countP (·.tag = object.tag)⟩ := by
  rw [occurrenceAt?, hobject]
  rfl

/-- The only object with its tag is the first occurrence wherever it stands. -/
theorem occurrenceAt?_of_once {objects : List Object} {index : Nat} {object : Object}
    (hobject : objects[index]? = some object)
    (honce : objects.countP (·.tag = object.tag) = 1) :
    occurrenceAt? objects index = some ⟨object.tag, 0⟩ := by
  rw [occurrenceAt?_of_getElem? hobject, countP_take_eq_zero hobject (decide_eq_true rfl) honce]

theorem objectAt?_eq_some_iff {objects : List Object} {occurrence : Occurrence} {object : Object} :
    objectAt? objects occurrence = some object ↔
      ∃ index, objects[index]? = some object ∧
        occurrenceAt? objects index = some occurrence := by
  constructor
  · intro h
    obtain ⟨index, hindex, hcount⟩ := exists_of_getElem?_filter h
    have htag : object.tag = occurrence.tag := by
      simpa using List.of_mem_filter (List.mem_of_getElem? h)
    refine ⟨index, hindex, ?_⟩
    rw [occurrenceAt?_of_getElem? hindex, htag, hcount]
  · rintro ⟨index, hindex, hoccurrence⟩
    rw [occurrenceAt?_of_getElem? hindex, Option.some.injEq] at hoccurrence
    subst hoccurrence
    exact getElem?_filter_countP hindex (decide_eq_true rfl)

theorem describingAt?_of_occurrenceAt? {tree : LayoutTree} {node : Node} {objects : List Object}
    {index : Nat} {occurrence : Occurrence}
    (h : occurrenceAt? objects index = some occurrence) :
    tree.describingAt? node objects index =
      tree.describing? node occurrence.tag occurrence.skip := by
  rw [describingAt?, h]
  rfl

/-- From some place on, the next object with a tag is the occurrence that is due there. -/
theorem exists_occurrenceAt?_of_le {objects : List Object} {place last : Nat} {object : Object}
    (hlast : objects[last]? = some object) (hle : place ≤ last) :
    ∃ index, place ≤ index ∧ index ≤ last ∧ occurrenceAt? objects index =
      some ⟨object.tag, (objects.take place).countP (·.tag = object.tag)⟩ := by
  let hasTag : Object → Bool := fun other => other.tag = object.tag
  have hmono : ∀ {i j}, i ≤ j → (objects.take i).countP hasTag ≤ (objects.take j).countP hasTag :=
    fun hij => (List.take_sublist_take_left hij).countP_le
  have hnext : ∀ {i other}, objects[i]? = some other → hasTag other = true →
      (objects.take (i + 1)).countP hasTag = (objects.take i).countP hasTag + 1 := by
    intro i other hother htag
    rw [countP_take_succ hother, if_pos htag]
  have htag : hasTag object = true := decide_eq_true rfl
  -- the last object is kept among those with the tag, and no earlier than the one that is due
  obtain ⟨hlt, _⟩ := List.getElem?_eq_some_iff.mp (getElem?_filter_countP hlast htag)
  obtain ⟨next, hdue⟩ : ∃ next,
      (objects.filter hasTag)[(objects.take place).countP hasTag]? = some next :=
    ⟨_, List.getElem?_eq_getElem (Nat.lt_of_le_of_lt (hmono hle) hlt)⟩
  obtain ⟨index, hindex, hcount⟩ := exists_of_getElem?_filter hdue
  have hsame := List.of_mem_filter (List.mem_of_getElem? hdue)
  have hafter := hnext hindex hsame
  refine ⟨index, ?_, ?_, ?_⟩
  · by_contra hbefore
    have := hmono (show index + 1 ≤ place by omega)
    omega
  · by_contra hbehind
    have := hnext hlast htag
    have := hmono (show last + 1 ≤ index by omega)
    have := hmono hle
    omega
  · have hnextTag : next.tag = object.tag := of_decide_eq_true hsame
    rw [occurrenceAt?_of_getElem? hindex, hnextTag]
    exact congrArg (fun count => some (Occurrence.mk object.tag count)) hcount

/-! ### Which occurrences are described -/

section

variable {tree : LayoutTree} (wf : tree.WellFormed) {id : Nat}

include wf

theorem describes_iff_of_occurrenceAt? {objects : List Object} {index position : Nat} {child : Node}
    {occurrence : Occurrence} (h : occurrenceAt? objects index = some occurrence) :
    tree.Describes (tree.node id) objects index position child ↔
      tree.describing? (tree.node id) occurrence.tag occurrence.skip = some (position, child) := by
  rw [← describingAt?_eq_some_iff wf, describingAt?_of_occurrenceAt? h]

/-- Where an occurrence of a tag is described, so are those before it, by earlier children. -/
theorem exists_describing?_of_lt {tag : Tag} {skip earlier position : Nat} {child : Node}
    (h : tree.describing? (tree.node id) tag skip = some (position, child))
    (hlt : earlier < skip) :
    ∃ place other, place < position ∧
      tree.describing? (tree.node id) tag earlier = some (place, other) := by
  obtain ⟨childId, hchild, rfl, hoccurrence⟩ := (describing?_eq_some_iff wf).mp h
  let hasTag : Nat → Bool := fun other => (tree.node other).tag? = some tag
  have hskip : skip = (((tree.node id).children.take position).filter hasTag).length := by
    rw [← List.countP_eq_length_filter]
    exact wf.skip_eq hchild hoccurrence
  -- the children before it that have the tag are as many as its skip
  obtain ⟨otherId, hsome⟩ : ∃ otherId,
      (((tree.node id).children.take position).filter hasTag)[earlier]? = some otherId :=
    ⟨_, List.getElem?_eq_getElem (hskip ▸ hlt)⟩
  obtain ⟨place, hplace, hcount⟩ := exists_of_getElem?_filter hsome
  have htag := List.of_mem_filter (List.mem_of_getElem? hsome)
  obtain ⟨hposition, hother⟩ :
      place < position ∧ (tree.node id).children[place]? = some otherId := by
    simpa [List.getElem?_take] using hplace
  obtain ⟨⟨otherTag, otherSkip⟩, hdescribed⟩ := Option.isSome_iff_exists.mp
    (wf.described id otherId (List.mem_of_getElem? hother))
  obtain rfl : otherTag = tag := by simpa [hasTag, Node.tag?, hdescribed] using htag
  rw [List.take_take, Nat.min_eq_left (by omega)] at hcount
  have hnumber : otherSkip = earlier := (wf.skip_eq hother hdescribed).trans hcount
  refine ⟨place, tree.node otherId, hposition, ?_⟩
  exact (describing?_eq_some_iff wf).mpr ⟨otherId, hother, rfl, hnumber ▸ hdescribed⟩

end

/-! ### What does not depend on the order -/

/-- What a node says of objects in whatever order: each of them is described by a child that allows
it and that its content fits, or it is not described and need not be, and no required child is
without an object. -/
structure Admits (tree : LayoutTree) (node : Node) (objects : List Object) : Prop where
  each : ∀ occurrence object, objectAt? objects occurrence = some object →
    (∃ position child,
      tree.describing? node occurrence.tag occurrence.skip = some (position, child) ∧
        child.requirement ≠ .forbidden ∧ tree.checkContent child object = .ok ()) ∨
    (tree.describing? node occurrence.tag occurrence.skip = none ∧ node.allowUnspecified = true)
  complete : ∀ id ∈ node.children, (tree.node id).requirement = .required →
    ∃ occurrence object, (tree.node id).occurrence = some occurrence ∧
      objectAt? objects occurrence = some object

theorem Admits.congr {tree : LayoutTree} {node : Node} {objects other : List Object}
    (h : tree.Admits node objects)
    (hsame : ∀ occurrence, objectAt? other occurrence = objectAt? objects occurrence) :
    tree.Admits node other where
  each occurrence object hobject := h.each occurrence object (hsame occurrence ▸ hobject)
  complete id hid hrequired := by
    obtain ⟨occurrence, object, hoccurrence, hobject⟩ := h.complete id hid hrequired
    exact ⟨occurrence, object, hoccurrence, (hsame occurrence).trans hobject⟩

section

variable {tree : LayoutTree} {node : Node} {objects : List Object}

/-- Where there are objects with a tag, one of them is its first occurrence. -/
theorem exists_objectAt?_of_mem {object : Object} (hmem : object ∈ objects) :
    ∃ first, objectAt? objects ⟨object.tag, 0⟩ = some first := by
  have hkept : object ∈ objects.filter (·.tag = object.tag) :=
    List.mem_filter.mpr ⟨hmem, decide_eq_true rfl⟩
  exact ⟨_, List.getElem?_eq_getElem (List.length_pos_of_mem hkept)⟩

theorem Admits.exists_describing? (h : tree.Admits node objects)
    (hclosed : node.allowUnspecified = false) {occurrence : Occurrence} {object : Object}
    (hobject : objectAt? objects occurrence = some object) :
    ∃ position child,
      tree.describing? node occurrence.tag occurrence.skip = some (position, child) := by
  rcases h.each occurrence object hobject with ⟨position, child, hfound, _⟩ | ⟨_, hopen⟩
  · exact ⟨position, child, hfound⟩
  · rw [hclosed] at hopen
    cases hopen

/-- A node that describes first occurrences only, and admits nothing else, admits no tag twice. -/
theorem Admits.countP_le_one (h : tree.Admits node objects)
    (hclosed : node.allowUnspecified = false)
    (hfirst : ∀ tag skip position child,
      tree.describing? node tag skip = some (position, child) → skip = 0) (tag : Tag) :
    objects.countP (·.tag = tag) ≤ 1 := by
  by_contra hmore
  rw [List.countP_eq_length_filter, Nat.not_le] at hmore
  have hsecond : objectAt? objects ⟨tag, 1⟩ = some (objects.filter (·.tag = tag))[1] :=
    List.getElem?_eq_getElem hmore
  obtain ⟨position, child, hfound⟩ := h.exists_describing? hclosed hsecond
  exact absurd (hfirst tag 1 position child hfound) (by decide)

/-- The only object with its tag. -/
theorem filter_eq_singleton_of_objectAt? {tag : Tag} {object : Object}
    (hobject : objectAt? objects ⟨tag, 0⟩ = some object)
    (honce : objects.countP (·.tag = tag) ≤ 1) : objects.filter (·.tag = tag) = [object] := by
  rw [List.countP_eq_length_filter] at honce
  unfold objectAt? at hobject
  cases hfilter : objects.filter (·.tag = tag) with
  | nil =>
    rw [hfilter] at hobject
    cases hobject
  | cons first rest =>
    rw [hfilter] at hobject honce
    obtain rfl : first = object := by simpa using hobject
    obtain rfl : rest = [] := by simpa using honce
    rfl

/-- A required child that describes a first occurrence stands for one object. -/
theorem Admits.exists_filter_eq_singleton (h : tree.Admits node objects) {id : Nat}
    (hid : id ∈ node.children) {tag : Tag} (hdescribes : (tree.node id).occurrence = some ⟨tag, 0⟩)
    (hrequired : (tree.node id).requirement = .required)
    (honce : objects.countP (·.tag = tag) ≤ 1) :
    ∃ object, objects.filter (·.tag = tag) = [object] := by
  obtain ⟨occurrence, object, hoccurrence, hobject⟩ := h.complete id hid hrequired
  rw [hdescribes] at hoccurrence
  cases hoccurrence
  exact ⟨object, filter_eq_singleton_of_objectAt? hobject honce⟩

end

/-- Later objects are described by later children. -/
def Rising (tree : LayoutTree) (node : Node) (objects : List Object) : Prop :=
  ∀ i j p q a b, i < j → tree.Describes node objects i p a → tree.Describes node objects j q b →
    p < q

theorem admits_iff (tree : LayoutTree) (id : Nat) (objects : List Object) :
    tree.Admits (tree.node id) objects ↔
      (∀ index, index < objects.length → tree.Passes (tree.node id) objects index) ∧
      ∀ position child, (tree.node id).children[position]? = some child →
        (tree.node child).requirement = .required →
        ∃ index, tree.Describes (tree.node id) objects index position (tree.node child) := by
  constructor
  · rintro ⟨heach, hcomplete⟩
    constructor
    · intro index hindex
      have hobject := List.getElem?_eq_getElem hindex
      have hat := occurrenceAt?_of_getElem? hobject
      rw [Passes, describingAt?_of_occurrenceAt? hat]
      rcases heach _ _ (objectAt?_eq_some_iff.mpr ⟨index, hobject, hat⟩) with
        ⟨position, child, hfound, hallowed, hcontent⟩ | ⟨hnone, hopen⟩
      · rw [hfound]
        refine ⟨hallowed, fun other hother => ?_⟩
        rw [hobject] at hother
        exact Option.some.inj hother ▸ hcontent
      · rw [hnone]
        exact hopen
    · intro position child hchild hrequired
      obtain ⟨occurrence, object, hoccurrence, hobject⟩ :=
        hcomplete child (List.mem_of_getElem? hchild) hrequired
      obtain ⟨index, _, hat⟩ := objectAt?_eq_some_iff.mp hobject
      exact ⟨index, child, occurrence, hchild, rfl, hoccurrence, hat⟩
  · rintro ⟨hpasses, hcomplete⟩
    constructor
    · intro occurrence object h
      obtain ⟨index, hobject, hat⟩ := objectAt?_eq_some_iff.mp h
      have hpass := hpasses index (List.getElem?_eq_some_iff.mp hobject).1
      rw [Passes, describingAt?_of_occurrenceAt? hat] at hpass
      cases hfound : tree.describing? (tree.node id) occurrence.tag occurrence.skip with
      | none =>
        rw [hfound] at hpass
        exact .inr ⟨rfl, hpass⟩
      | some hit =>
        rw [hfound] at hpass
        exact .inl ⟨hit.1, hit.2, rfl, hpass.1, hpass.2 object hobject⟩
    · intro childId hmem hrequired
      obtain ⟨position, hchild⟩ := List.getElem?_of_mem hmem
      obtain ⟨index, other, occurrence, hother, _, hoccurrence, hat⟩ :=
        hcomplete position childId hchild hrequired
      obtain ⟨object, hobject, _⟩ := Option.map_eq_some_iff.mp hat
      exact ⟨occurrence, object, hoccurrence, objectAt?_eq_some_iff.mpr ⟨index, hobject, hat⟩⟩

/-- Matching is about the objects by occurrence, and about their order where it matters. -/
theorem checkFrom_start_eq_ok_iff_admits {tree : LayoutTree} (wf : tree.WellFormed) (id : Nat)
    (objects : List Object) :
    tree.checkFrom (tree.node id) .start objects = .ok () ↔
      tree.Admits (tree.node id) objects ∧
      ((tree.node id).order = .strict → tree.Rising (tree.node id) objects) := by
  have hrest : objects.drop 0 = objects := rfl
  have htally : ∀ tag, Progress.start.tally.count tag =
      (objects.take 0).countP (·.tag = tag) := fun _ => rfl
  rw [checkFrom_eq_ok_iff hrest htally, admits_iff]
  simp only [Progress.start, Nat.zero_le, forall_const, Nat.zero_add, isChain_hits_iff wf,
    requiredCount_le_iff wf, Rising]
  tauto

theorem isMatch_verdict_iff_admits {tree : LayoutTree} (built : Built tree)
    (objects : List Object) :
    (tree.verdict objects).isMatch = true ↔
      tree.Admits (tree.node 0) objects ∧
      ((tree.node 0).order = .strict → tree.Rising (tree.node 0) objects) := by
  rw [isMatch_verdict_iff, check, checkFrom_start_eq_ok_iff_admits built.wellFormed]

/-! ### Another order at the root -/

section

variable {tree : LayoutTree} (built : Built tree) (order : SiblingOrder)

include built

theorem node_setOrder_of_ne {id : Nat} (hid : id ≠ 0) :
    (tree.setOrder 0 order).node id = tree.node id := by
  rw [node_setOrder built.linked.nonempty, if_neg hid]

theorem describing?_setOrder (tag : Tag) (skip : Nat) :
    (tree.setOrder 0 order).describing? ((tree.setOrder 0 order).node 0) tag skip =
      tree.describing? (tree.node 0) tag skip := by
  have wf := built.wellFormed
  have hroot := built.linked.nonempty
  have hchildren : ((tree.setOrder 0 order).node 0).children = (tree.node 0).children := by
    rw [node_setOrder hroot, if_pos rfl]
  ext ⟨position, child⟩
  rw [describing?_eq_some_iff wf, describing?_eq_some_iff (wf.setOrder hroot order), hchildren]
  refine exists_congr fun childId => and_congr_right fun hchild => ?_
  have := (wf.bounds 0 childId (List.mem_of_getElem? hchild)).1
  rw [node_setOrder_of_ne built order (by omega)]

/-- The nodes below the root say what they said. -/
theorem checkContent_setOrder {id : Nat} (hchild : id ∈ (tree.node 0).children)
    (object : Object) :
    (tree.setOrder 0 order).checkContent (tree.node id) object =
      tree.checkContent (tree.node id) object := by
  have wf := built.wellFormed
  have wf' := wf.setOrder built.linked.nonempty order
  obtain ⟨hbehind, hlast⟩ := wf.bounds 0 id hchild
  have hsame := node_setOrder_of_ne built order (show id ≠ 0 by omega)
  have hnodes : ∀ other, 1 ≤ other → other < tree.nodes.size →
      (tree.setOrder 0 order).node other = tree.node other :=
    fun other hother _ => node_setOrder_of_ne built order (by omega)
  have hbelow := layoutsBelow_congr wf wf' hnodes hbehind hlast
  have halike : (tree.setOrder 0 order).Alike tree id id :=
    ⟨by rw [hsame], by rw [hsame], hbelow⟩
  rw [← halike.checkContent_eq wf' wf object, hsame]

theorem describes_setOrder (objects : List Object) (index position : Nat) (child : Node) :
    (tree.setOrder 0 order).Describes ((tree.setOrder 0 order).node 0) objects index position
        child ↔
      tree.Describes (tree.node 0) objects index position child := by
  have wf := built.wellFormed
  rw [← describingAt?_eq_some_iff wf,
    ← describingAt?_eq_some_iff (wf.setOrder built.linked.nonempty order)]
  simp only [describingAt?, describing?_setOrder built order]

theorem admits_setOrder (objects : List Object) :
    (tree.setOrder 0 order).Admits ((tree.setOrder 0 order).node 0) objects ↔
      tree.Admits (tree.node 0) objects := by
  have wf := built.wellFormed
  have hnode : (tree.setOrder 0 order).node 0 = { tree.node 0 with order } := by
    rw [node_setOrder built.linked.nonempty, if_pos rfl]
  have hpasses : ∀ index, (tree.setOrder 0 order).Passes ((tree.setOrder 0 order).node 0) objects
      index ↔ tree.Passes (tree.node 0) objects index := by
    intro index
    rw [passes_iff (wf.setOrder built.linked.nonempty order), passes_iff wf]
    simp only [describes_setOrder built order]
    have hcontent : ∀ position child object,
        tree.Describes (tree.node 0) objects index position child →
        (tree.setOrder 0 order).checkContent child object = tree.checkContent child object := by
      rintro position child object ⟨id, _, hid, rfl, _⟩
      exact checkContent_setOrder built order (List.mem_of_getElem? hid) object
    refine and_congr (by rw [hnode]) ?_
    exact forall₄_congr fun position child object _ => forall_congr' fun hdescribes => by
      rw [hcontent position child object hdescribes]
  have hchild : ∀ position id : Nat, (tree.node 0).children[position]? = some id →
      (tree.setOrder 0 order).node id = tree.node id := by
    intro position id hid
    have := (wf.bounds 0 id (List.mem_of_getElem? hid)).1
    exact node_setOrder_of_ne built order (by omega)
  rw [admits_iff, admits_iff]
  simp only [hpasses, describes_setOrder built order]
  refine and_congr_right fun _ => forall₂_congr fun position id => ?_
  rw [hnode]
  exact forall_congr' fun hid => by rw [hchild position id hid]

/-- The order of the root matters to where objects stand, and to nothing else. -/
theorem isMatch_verdict_setOrder_iff (objects : List Object) :
    ((tree.setOrder 0 order).verdict objects).isMatch = true ↔
      tree.Admits (tree.node 0) objects ∧
      (order = .strict → tree.Rising (tree.node 0) objects) := by
  have hroot := built.linked.nonempty
  have horder : ((tree.setOrder 0 order).node 0).order = order := by
    rw [node_setOrder hroot, if_pos rfl]
  rw [isMatch_verdict_iff_admits (built.setOrder hroot order), admits_setOrder built, horder]
  simp only [Rising, describes_setOrder built]

end

end SmartCard.LayoutTree
