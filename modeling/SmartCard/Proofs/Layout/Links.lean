import Mathlib.Data.List.Flatten
import SmartCard.Proofs.Layout.Meaning

/-!
# Links in layout trees

The numbers of children and the numbers of parents in a tree as it is built say the same, and calls
that come later leave alone what is there. This holds of trees made from layouts too.
-/

namespace SmartCard.LayoutTree

/-! ### Calls -/

/-- What a tree becomes by calls that add children to nodes that are there and set flags of such
nodes. -/
inductive Grows (tree : LayoutTree) : LayoutTree → Prop
  | refl : Grows tree tree
  | addChild {later : LayoutTree} {parent : Nat} (grows : Grows tree later)
      (hparent : parent < later.nodes.size) (tag : Tag) (requirement : Requirement) :
      Grows tree (later.addChild parent tag requirement).2
  | setOrder {later : LayoutTree} {id : Nat} (grows : Grows tree later)
      (hid : id < later.nodes.size) (order : SiblingOrder) : Grows tree (later.setOrder id order)
  | setAllowUnspecified {later : LayoutTree} {id : Nat} (grows : Grows tree later)
      (hid : id < later.nodes.size) (allow : Bool) :
      Grows tree (later.setAllowUnspecified id allow)

theorem Grows.trans {tree later last : LayoutTree} (h : tree.Grows later) (h' : later.Grows last) :
    tree.Grows last := by
  induction h' with
  | refl => exact h
  | addChild _ hparent tag requirement ih => exact ih.addChild hparent tag requirement
  | setOrder _ hid order ih => exact ih.setOrder hid order
  | setAllowUnspecified _ hid allow ih => exact ih.setAllowUnspecified hid allow

theorem Built.grows {tree later : LayoutTree} (built : Built tree) (h : tree.Grows later) :
    Built later := by
  induction h with
  | refl => exact built
  | addChild _ hparent tag requirement ih => exact ih.addChild hparent tag requirement
  | setOrder _ hid order ih => exact ih.setOrder hid order
  | setAllowUnspecified _ hid allow ih => exact ih.setAllowUnspecified hid allow

@[simp] theorem size_setOrder (tree : LayoutTree) (id : Nat) (order : SiblingOrder) :
    (tree.setOrder id order).nodes.size = tree.nodes.size := by
  simp [setOrder]

@[simp] theorem size_setAllowUnspecified (tree : LayoutTree) (id : Nat) (allow : Bool) :
    (tree.setAllowUnspecified id allow).nodes.size = tree.nodes.size := by
  simp [setAllowUnspecified]

theorem Grows.size_le {tree later : LayoutTree} (h : tree.Grows later) :
    tree.nodes.size ≤ later.nodes.size := by
  induction h with
  | refl => exact Nat.le_refl _
  | addChild _ _ _ _ ih =>
    rw [size_addChild]
    omega
  | setOrder _ _ _ ih => rwa [size_setOrder]
  | setAllowUnspecified _ _ _ ih => rwa [size_setAllowUnspecified]

mutual

theorem grows_addLayout {tree : LayoutTree} {parent : Nat} (hparent : parent < tree.nodes.size) :
    (layout : TagLayout) → tree.Grows (tree.addLayout parent layout)
  | .mk tag requirement order allowUnspecified children => by
    have hnew : tree.nodes.size < (tree.addChild parent tag requirement).2.nodes.size := by
      rw [size_addChild]
      omega
    have hadded : tree.Grows (((tree.addChild parent tag requirement).2.setOrder tree.nodes.size
        order).setAllowUnspecified tree.nodes.size allowUnspecified) :=
      ((Grows.refl.addChild hparent tag requirement).setOrder hnew order).setAllowUnspecified
        (by rwa [size_setOrder]) allowUnspecified
    rw [addLayout]
    apply hadded.trans
    apply grows_addLayouts
    rwa [size_setAllowUnspecified, size_setOrder]

theorem grows_addLayouts {tree : LayoutTree} {parent : Nat} (hparent : parent < tree.nodes.size) :
    (layouts : List TagLayout) → tree.Grows (tree.addLayouts parent layouts)
  | [] => by
    rw [addLayouts]
    exact .refl
  | layout :: rest => by
    have hfirst := grows_addLayout hparent layout
    rw [addLayouts]
    exact hfirst.trans (grows_addLayouts (Nat.lt_of_lt_of_le hparent hfirst.size_le) rest)

end

theorem built_ofLayout (layout : DataLayout) : Built (ofLayout layout) := by
  have hroot : 0 < empty.nodes.size := by decide
  have hflags := (Built.empty.setOrder hroot layout.order).setAllowUnspecified
    (by rwa [size_setOrder]) layout.allowUnspecified
  refine hflags.grows (grows_addLayouts ?_ layout.children)
  rwa [size_setAllowUnspecified, size_setOrder]

/-! ### What later calls leave alone -/

/-- What the nodes of a tree stand for is the same in a later one, and children are added only
behind those that were there. -/
structure Kept (tree later : LayoutTree) : Prop where
  size : tree.nodes.size ≤ later.nodes.size
  occurrence : ∀ id < tree.nodes.size, (later.node id).occurrence = (tree.node id).occurrence
  parent : ∀ id < tree.nodes.size, (later.node id).parent = (tree.node id).parent
  requirement : ∀ id < tree.nodes.size, (later.node id).requirement = (tree.node id).requirement
  children : ∀ id, (tree.node id).children <+: (later.node id).children

theorem Kept.trans {tree later last : LayoutTree} (h : tree.Kept later) (h' : later.Kept last) :
    tree.Kept last where
  size := Nat.le_trans h.size h'.size
  occurrence id hid :=
    (h'.occurrence id (Nat.lt_of_lt_of_le hid h.size)).trans (h.occurrence id hid)
  parent id hid := (h'.parent id (Nat.lt_of_lt_of_le hid h.size)).trans (h.parent id hid)
  requirement id hid :=
    (h'.requirement id (Nat.lt_of_lt_of_le hid h.size)).trans (h.requirement id hid)
  children id := (h.children id).trans (h'.children id)

theorem kept_addChild {tree : LayoutTree} {parent : Nat} (hparent : parent < tree.nodes.size)
    (tag : Tag) (requirement : Requirement) :
    tree.Kept (tree.addChild parent tag requirement).2 := by
  have hold : ∀ id < tree.nodes.size, (tree.addChild parent tag requirement).2.node id =
      if id = parent then
        { tree.node id with children := (tree.node id).children ++ [tree.nodes.size] }
      else tree.node id := by
    intro id hid
    rw [node_addChild hparent, if_neg (by omega)]
  constructor
  case size =>
    rw [size_addChild]
    omega
  case children =>
    intro id
    rw [children_addChild hparent]
    exact List.prefix_append ..
  all_goals
    intro id hid
    rw [hold id hid]
    split <;> rfl

theorem kept_setOrder {tree : LayoutTree} {id : Nat} (hid : id < tree.nodes.size)
    (order : SiblingOrder) : tree.Kept (tree.setOrder id order) := by
  constructor
  case size => rw [size_setOrder]
  case children =>
    intro other
    rw [node_setOrder hid]
    split <;> exact List.prefix_refl _
  all_goals
    intro other _
    rw [node_setOrder hid]
    split <;> rfl

theorem kept_setAllowUnspecified {tree : LayoutTree} {id : Nat} (hid : id < tree.nodes.size)
    (allow : Bool) : tree.Kept (tree.setAllowUnspecified id allow) := by
  constructor
  case size => rw [size_setAllowUnspecified]
  case children =>
    intro other
    rw [node_setAllowUnspecified hid]
    split <;> exact List.prefix_refl _
  all_goals
    intro other _
    rw [node_setAllowUnspecified hid]
    split <;> rfl

theorem Grows.kept {tree later : LayoutTree} (h : tree.Grows later) : tree.Kept later := by
  induction h with
  | refl => exact ⟨Nat.le_refl _, fun _ _ => rfl, fun _ _ => rfl, fun _ _ => rfl,
      fun _ => List.prefix_refl _⟩
  | addChild _ hparent tag requirement ih => exact ih.trans (kept_addChild hparent tag requirement)
  | setOrder _ hid order ih => exact ih.trans (kept_setOrder hid order)
  | setAllowUnspecified _ hid allow ih => exact ih.trans (kept_setAllowUnspecified hid allow)

/-! ### Parents and children -/

/-- All children lists together. -/
def listed (tree : LayoutTree) : List Nat :=
  (List.range tree.nodes.size).flatMap fun id => (tree.node id).children

/-- The children lists and the links to parents say the same. -/
structure Linked (tree : LayoutTree) : Prop where
  nonempty : 0 < tree.nodes.size
  /-- Only the root has no parent, and only the root describes no occurrence. -/
  root : ∀ id < tree.nodes.size,
    ((tree.node id).parent = none ↔ id = 0) ∧ ((tree.node id).occurrence = none ↔ id = 0)
  /-- A node is a child of its parent, and of no other node. -/
  child_iff : ∀ id parent, id ∈ (tree.node parent).children ↔ (tree.node id).parent = some parent
  /-- Every node but the root is listed as a child once. -/
  once : tree.listed.Perm (List.range' 1 (tree.nodes.size - 1))

theorem flatMap_ite_eq (ids : List Nat) (parent new : Nat) :
    (ids.flatMap fun id => if id = parent then [new] else []) =
      List.replicate (ids.count parent) new := by
  induction ids with
  | nil => rfl
  | cons id rest ih =>
    rw [List.flatMap_cons, ih, List.count_cons]
    by_cases hid : id = parent
    · simp [hid, List.replicate_succ]
    · simp [hid]

theorem perm_listed_addChild {tree : LayoutTree} {parent : Nat}
    (hparent : parent < tree.nodes.size) (tag : Tag) (requirement : Requirement) :
    (tree.addChild parent tag requirement).2.listed.Perm (tree.listed ++ [tree.nodes.size]) := by
  have hnew : (tree.node tree.nodes.size).children = [] := by
    rw [node_of_size_le (Nat.le_refl _)]
    rfl
  have hadded : (List.range (tree.nodes.size + 1)).flatMap
      (fun id => if id = parent then [tree.nodes.size] else []) = [tree.nodes.size] := by
    have hcount : (List.range (tree.nodes.size + 1)).count parent = 1 := by
      rw [List.count_range, if_pos (by omega)]
    rw [flatMap_ite_eq, hcount, List.replicate_one]
  have hlisted : tree.listed =
      (List.range (tree.nodes.size + 1)).flatMap fun id => (tree.node id).children := by
    rw [List.range_succ, List.flatMap_append, List.flatMap_singleton, hnew, List.append_nil]
    rfl
  rw [hlisted, listed, size_addChild]
  simp only [children_addChild hparent]
  have hperm := List.flatMap_append_perm (List.range (tree.nodes.size + 1))
    (fun id => (tree.node id).children) fun id => if id = parent then [tree.nodes.size] else []
  rw [hadded] at hperm
  exact hperm.symm

theorem linked_empty : empty.Linked := by
  have hroot : ∀ id, empty.node id = .root := by
    intro id
    cases id <;> simp [node, empty]
  refine ⟨by decide, ?_, ?_, ?_⟩
  · intro id hid
    have : id = 0 := by
      have hsize : empty.nodes.size = 1 := rfl
      omega
    simp [hroot, Node.root, this]
  · simp [hroot, Node.root]
  · have hlisted : empty.listed = [] := by
      rw [listed, List.flatMap_eq_nil_iff]
      intro id _
      rw [hroot]
      rfl
    rw [hlisted]
    exact .refl _

theorem Linked.addChild {tree : LayoutTree} (wf : tree.WellFormed) (h : tree.Linked) {parent : Nat}
    (hparent : parent < tree.nodes.size) (tag : Tag) (requirement : Requirement) :
    (tree.addChild parent tag requirement).2.Linked := by
  have hkept := kept_addChild hparent tag requirement
  have hnew : (tree.addChild parent tag requirement).2.node tree.nodes.size =
      .child ⟨tag, (tree.skips parent tag).length⟩ requirement parent := by
    rw [node_addChild hparent, if_pos rfl]
  have hbeyond : ∀ id, tree.nodes.size < id →
      (tree.addChild parent tag requirement).2.node id = .root := by
    intro id hid
    rw [node_of_size_le]
    rw [size_addChild]
    omega
  have hpositive := h.nonempty
  constructor
  case nonempty => exact Nat.lt_of_lt_of_le h.nonempty hkept.size
  case root =>
    intro id hid
    rw [size_addChild] at hid
    rcases Nat.lt_or_eq_of_le (Nat.le_of_lt_succ hid) with hold | rfl
    · rw [hkept.parent id hold, hkept.occurrence id hold]
      exact h.root id hold
    · rw [hnew]
      have hne : tree.nodes.size ≠ 0 := by omega
      exact ⟨iff_of_false nofun hne, iff_of_false nofun hne⟩
  case child_iff =>
    intro id other
    have hmem : id ∈ ((tree.addChild parent tag requirement).2.node other).children ↔
        id ∈ (tree.node other).children ∨ other = parent ∧ id = tree.nodes.size := by
      rw [children_addChild hparent, List.mem_append]
      by_cases hother : other = parent <;> simp [hother]
    have hunlisted : ∀ {id}, tree.nodes.size ≤ id → id ∉ (tree.node other).children := by
      intro id hid hchild
      have := (wf.bounds other id hchild).2
      omega
    rw [hmem]
    rcases Nat.lt_trichotomy id tree.nodes.size with hold | rfl | hid
    · have hne : id ≠ tree.nodes.size := by omega
      rw [hkept.parent id hold, ← h.child_iff]
      simp [hne]
    · rw [hnew]
      simp [hunlisted, Node.child, eq_comm]
    · have hne : id ≠ tree.nodes.size := by omega
      rw [hbeyond id hid]
      simp [hunlisted hid.le, hne, Node.root]
  case once =>
    have hsize : tree.nodes.size + 1 - 1 = (tree.nodes.size - 1) + 1 := by omega
    have hlast : 1 + (tree.nodes.size - 1) = tree.nodes.size := by omega
    rw [size_addChild, hsize, List.range'_1_concat, hlast]
    exact (perm_listed_addChild hparent tag requirement).trans (h.once.append_right _)

/-- Flags of nodes do not matter to the links. -/
theorem Linked.congr {tree other : LayoutTree} (h : tree.Linked)
    (hsize : other.nodes.size = tree.nodes.size)
    (hlinks : ∀ id, (other.node id).children = (tree.node id).children ∧
      (other.node id).parent = (tree.node id).parent ∧
      (other.node id).occurrence = (tree.node id).occurrence) : other.Linked := by
  obtain ⟨hnonempty, hroot, hchild, honce⟩ := h
  refine ⟨by rwa [hsize], ?_, ?_, ?_⟩
  · intro id hid
    rw [(hlinks id).2.1, (hlinks id).2.2]
    exact hroot id (hsize ▸ hid)
  · intro id parent
    rw [(hlinks parent).1, (hlinks id).2.1]
    exact hchild id parent
  · have hlisted : other.listed = tree.listed := by simp only [listed, hsize, hlinks]
    rwa [hlisted, hsize]

theorem Built.linked {tree : LayoutTree} (built : Built tree) : tree.Linked := by
  induction built with
  | empty => exact linked_empty
  | addChild built hparent tag requirement ih =>
    exact ih.addChild built.wellFormed hparent tag requirement
  | setOrder _ hid order ih =>
    refine ih.congr (size_setOrder ..) fun other => ?_
    rw [node_setOrder hid]
    split <;> exact ⟨rfl, rfl, rfl⟩
  | setAllowUnspecified _ hid allow ih =>
    refine ih.congr (size_setAllowUnspecified ..) fun other => ?_
    rw [node_setAllowUnspecified hid]
    split <;> exact ⟨rfl, rfl, rfl⟩

end SmartCard.LayoutTree
