import SmartCard.Proofs.Layout.Descent

/-!
# Layouts grafted onto trees

Adding a described tag to a node, with everything below it, numbers the new nodes in the order in
which they are come by and touches no other node than that one. So what is read back below the node
is what was read there before, and the description behind it.
-/

namespace SmartCard.LayoutTree

/-- What is read below a node depends on that node and on those behind it alone. -/
theorem layoutsBelow_congr {tree later : LayoutTree} (wf : tree.WellFormed)
    (wf' : later.WellFormed) {first id : Nat}
    (hnodes : ∀ id, first ≤ id → id < tree.nodes.size → later.node id = tree.node id)
    (hfirst : first ≤ id) (hid : id < tree.nodes.size) :
    later.layoutsBelow id = tree.layoutsBelow id := by
  -- children lie behind their parents, so the distance to the end falls
  induction hleft : tree.nodes.size - id using Nat.strong_induction_on generalizing id with
  | _ left ih =>
    rw [layoutsBelow_eq wf', layoutsBelow_eq wf, hnodes id hfirst hid]
    apply List.filterMap_congr
    intro child hchild
    obtain ⟨hbehind, hlast⟩ := wf.bounds id child hchild
    have hbelow := ih (tree.nodes.size - child) (by omega) (by omega) hlast rfl
    rw [layout?, layout?, hnodes child (by omega) hlast, hbelow]

/-- `later` is `tree` with new children behind those of `parent`, which read back as `layouts`, and
with the nodes below these. -/
structure Grafts (tree : LayoutTree) (parent : Nat) (layouts : List TagLayout)
    (later : LayoutTree) : Prop where
  built : Built later
  size : tree.nodes.size ≤ later.nodes.size
  others : ∀ id < tree.nodes.size, id ≠ parent → later.node id = tree.node id
  added : ∃ added, (∀ child ∈ added, tree.nodes.size ≤ child) ∧
    added.filterMap later.layout? = layouts ∧
    later.node parent =
      { tree.node parent with children := (tree.node parent).children ++ added }

theorem grafts_nil {tree : LayoutTree} (built : Built tree) (parent : Nat) :
    tree.Grafts parent [] tree := by
  refine ⟨built, Nat.le_refl _, fun _ _ _ => rfl, [], nofun, rfl, ?_⟩
  rw [List.append_nil]

/-- One graft after another at the same node leaves the first one as it is. -/
theorem Grafts.append {tree later last : LayoutTree} {parent : Nat}
    {layouts others : List TagLayout} (hparent : parent < tree.nodes.size)
    (h : tree.Grafts parent layouts later) (h' : later.Grafts parent others last) :
    tree.Grafts parent (layouts ++ others) last := by
  obtain ⟨first, hfirst, hlayouts, hnode⟩ := h.added
  obtain ⟨second, hsecond, hothers, hnode'⟩ := h'.added
  have hbehind : ∀ id, parent + 1 ≤ id → id < later.nodes.size → last.node id = later.node id :=
    fun id hid hlast => h'.others id hlast (by omega)
  -- what the first graft added lies behind `parent`, where the second one changes nothing
  have hkept : first.filterMap last.layout? = first.filterMap later.layout? := by
    apply List.filterMap_congr
    intro child hchild
    have hafter := hfirst child hchild
    have hlast : child < later.nodes.size := by
      refine (h.built.wellFormed.bounds parent child ?_).2
      rw [hnode]
      exact List.mem_append_right _ hchild
    have hbelow := layoutsBelow_congr h.built.wellFormed h'.built.wellFormed hbehind
      (by omega : parent + 1 ≤ child) hlast
    rw [layout?, layout?, hbehind child (by omega) hlast, hbelow]
  constructor
  case built => exact h'.built
  case size => exact Nat.le_trans h.size h'.size
  case others =>
    intro id hid hne
    rw [h'.others id (Nat.lt_of_lt_of_le hid h.size) hne, h.others id hid hne]
  case added =>
    refine ⟨first ++ second, ?_, ?_, ?_⟩
    · intro child hchild
      rcases List.mem_append.mp hchild with hchild | hchild
      · exact hfirst child hchild
      · exact Nat.le_trans h.size (hsecond child hchild)
    · rw [List.filterMap_append, hkept, hlayouts, hothers]
    · rw [hnode', hnode, List.append_assoc]

/-! ### One described tag -/

/-- The tree with a new child of `parent` that has nothing below it yet. -/
def addBare (tree : LayoutTree) (parent : Nat) (tag : Tag) (requirement : Requirement)
    (order : SiblingOrder) (allow : Bool) : LayoutTree :=
  ((tree.addChild parent tag requirement).2.setOrder tree.nodes.size order).setAllowUnspecified
    tree.nodes.size allow

section

variable {tree : LayoutTree} {parent : Nat} (tag : Tag) (requirement : Requirement)
  (order : SiblingOrder) (allow : Bool)

theorem addLayout_eq (children : List TagLayout) :
    tree.addLayout parent (.mk tag requirement order allow children) =
      (tree.addBare parent tag requirement order allow).addLayouts tree.nodes.size children := by
  rw [addLayout]
  rfl

theorem size_addBare :
    (tree.addBare parent tag requirement order allow).nodes.size = tree.nodes.size + 1 := by
  rw [addBare, size_setAllowUnspecified, size_setOrder, size_addChild]

theorem Built.addBare (built : Built tree) (hparent : parent < tree.nodes.size) :
    Built (tree.addBare parent tag requirement order allow) := by
  have hnew : tree.nodes.size < (tree.addChild parent tag requirement).2.nodes.size := by
    rw [size_addChild]
    omega
  exact ((built.addChild hparent tag requirement).setOrder hnew order).setAllowUnspecified
    (by rwa [size_setOrder]) allow

theorem node_addBare (hparent : parent < tree.nodes.size) (id : Nat) :
    (tree.addBare parent tag requirement order allow).node id =
      if id = tree.nodes.size then
        ⟨some ⟨tag, (tree.skips parent tag).length⟩, requirement, order, allow, [], some parent⟩
      else if id = parent then
        { tree.node id with children := (tree.node id).children ++ [tree.nodes.size] }
      else
        tree.node id := by
  have hnew : tree.nodes.size < (tree.addChild parent tag requirement).2.nodes.size := by
    rw [size_addChild]
    omega
  rw [LayoutTree.addBare, node_setAllowUnspecified (by rwa [size_setOrder]), node_setOrder hnew,
    node_addChild hparent]
  by_cases hid : id = tree.nodes.size <;> simp [hid, Node.child]

theorem Grafts.of_addBare {later : LayoutTree} {children : List TagLayout}
    (hparent : parent < tree.nodes.size)
    (h : (tree.addBare parent tag requirement order allow).Grafts tree.nodes.size children later) :
    tree.Grafts parent [.mk tag requirement order allow children] later := by
  have hsize := h.size
  rw [size_addBare] at hsize
  have hothers : ∀ id < tree.nodes.size, later.node id =
      if id = parent then
        { tree.node id with children := (tree.node id).children ++ [tree.nodes.size] }
      else tree.node id := by
    intro id hid
    have hlt : id < (tree.addBare parent tag requirement order allow).nodes.size := by
      rw [size_addBare]
      omega
    rw [h.others id hlt (by omega), node_addBare tag requirement order allow hparent,
      if_neg (by omega)]
  obtain ⟨added, _, hchildren, hnode⟩ := h.added
  rw [node_addBare tag requirement order allow hparent, if_pos rfl] at hnode
  constructor
  case built => exact h.built
  case size => omega
  case others =>
    intro id hid hne
    rw [hothers id hid, if_neg hne]
  case added =>
    refine ⟨[tree.nodes.size], by simp, ?_, ?_⟩
    · rw [List.filterMap_cons, List.filterMap_nil, layout?, layoutsBelow_eq h.built.wellFormed,
        hnode, List.nil_append, hchildren]
      rfl
    · rw [hothers parent hparent, if_pos rfl]

end

mutual

theorem grafts_addLayout {tree : LayoutTree} {parent : Nat} (built : Built tree)
    (hparent : parent < tree.nodes.size) :
    (layout : TagLayout) → tree.Grafts parent [layout] (tree.addLayout parent layout)
  | .mk tag requirement order allow children => by
    have hnew : tree.nodes.size < (tree.addBare parent tag requirement order allow).nodes.size := by
      rw [size_addBare]
      omega
    have hbelow := grafts_addLayouts (built.addBare tag requirement order allow hparent) hnew
      children
    rw [addLayout_eq]
    exact hbelow.of_addBare tag requirement order allow hparent

theorem grafts_addLayouts {tree : LayoutTree} {parent : Nat} (built : Built tree)
    (hparent : parent < tree.nodes.size) :
    (layouts : List TagLayout) → tree.Grafts parent layouts (tree.addLayouts parent layouts)
  | [] => by
    rw [addLayouts]
    exact grafts_nil built parent
  | layout :: rest => by
    have hfirst := grafts_addLayout built hparent layout
    rw [addLayouts]
    exact hfirst.append hparent
      (grafts_addLayouts hfirst.built (Nat.lt_of_lt_of_le hparent hfirst.size) rest)

end

/-! ### Trees made from layouts -/

theorem root_ofLayout (layout : DataLayout) :
    ((ofLayout layout).node 0).order = layout.order ∧
      ((ofLayout layout).node 0).allowUnspecified = layout.allowUnspecified ∧
      (ofLayout layout).layoutsBelow 0 = layout.children := by
  have hroot : 0 < empty.nodes.size := by decide
  let start := (empty.setOrder 0 layout.order).setAllowUnspecified 0 layout.allowUnspecified
  have hsize : start.nodes.size = 1 := by
    rw [size_setAllowUnspecified, size_setOrder]
    rfl
  have hstart : Built start := (Built.empty.setOrder hroot layout.order).setAllowUnspecified
    (by rwa [size_setOrder]) layout.allowUnspecified
  have hnode : start.node 0 =
      ⟨none, .required, layout.order, layout.allowUnspecified, [], none⟩ := by
    rw [node_setAllowUnspecified (by rwa [size_setOrder]), node_setOrder hroot]
    rfl
  have hgrafts : start.Grafts 0 layout.children (ofLayout layout) :=
    grafts_addLayouts hstart (by omega) layout.children
  obtain ⟨added, _, hlayouts, hadded⟩ := hgrafts.added
  rw [hnode] at hadded
  rw [layoutsBelow_eq hgrafts.built.wellFormed, hadded]
  exact ⟨rfl, rfl, hlayouts⟩

/-- Numbering the nodes of a layout loses nothing of it. -/
theorem toLayout_ofLayout (layout : DataLayout) : (ofLayout layout).toLayout = layout := by
  obtain ⟨horder, hallow, hchildren⟩ := root_ofLayout layout
  rw [toLayout, horder, hallow, hchildren]

end SmartCard.LayoutTree
