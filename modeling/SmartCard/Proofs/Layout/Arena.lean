import Mathlib.Data.List.Nodup
import Mathlib.Data.List.Range
import SmartCard.Shape.LayoutTree

/-!
# Layout trees as they are built

The trees that arise from an empty one by adding children to nodes that are there and by setting
their flags. Among the children of a node, those for one tag are numbered 0, 1, 2, … in order, so
that an occurrence of a tag is described at most once.
-/

namespace SmartCard.LayoutTree

/-- Trees made by adding children to nodes that are there and by setting flags of such nodes. -/
inductive Built : LayoutTree → Prop
  | empty : Built .empty
  | addChild {tree : LayoutTree} {parent : Nat} (built : Built tree)
      (hparent : parent < tree.nodes.size) (tag : Tag) (requirement : Requirement) :
      Built (tree.addChild parent tag requirement).2
  | setOrder {tree : LayoutTree} {id : Nat} (built : Built tree) (hid : id < tree.nodes.size)
      (order : SiblingOrder) : Built (tree.setOrder id order)
  | setAllowUnspecified {tree : LayoutTree} {id : Nat} (built : Built tree)
      (hid : id < tree.nodes.size) (allow : Bool) : Built (tree.setAllowUnspecified id allow)

/-- The skip of the occurrence that a node describes, if that is one of `tag`. -/
def Node.skip? (node : Node) (tag : Tag) : Option Nat :=
  node.occurrence.bind fun occurrence =>
    if occurrence.tag = tag then some occurrence.skip else none

/-- The skips described for `tag` among the children of a node, in their order. -/
def skips (tree : LayoutTree) (id : Nat) (tag : Tag) : List Nat :=
  (tree.node id).children.filterMap fun child => (tree.node child).skip? tag

/-- Children lie behind their parents, all of them describe an occurrence, and the occurrences of
a tag are numbered in order. -/
structure WellFormed (tree : LayoutTree) : Prop where
  bounds : ∀ id, ∀ child ∈ (tree.node id).children, id < child ∧ child < tree.nodes.size
  described : ∀ id, ∀ child ∈ (tree.node id).children, (tree.node child).occurrence.isSome
  numbered : ∀ id tag, tree.skips id tag = List.range (tree.skips id tag).length

theorem node_of_size_le {tree : LayoutTree} {id : Nat} (h : tree.nodes.size ≤ id) :
    tree.node id = .root := by
  simp [node, Array.getElem?_eq_none h]

/-! ### Adding a child -/

@[simp] theorem size_addChild (tree : LayoutTree) (parent : Nat) (tag : Tag)
    (requirement : Requirement) :
    (tree.addChild parent tag requirement).2.nodes.size = tree.nodes.size + 1 := by
  simp [addChild]

/-- The skip of the next child for a tag is the number of those that are there. -/
theorem countP_tag?_eq_length_skips (tree : LayoutTree) (id : Nat) (tag : Tag) :
    ((tree.node id).children.countP fun child => (tree.node child).tag? = some tag) =
      (tree.skips id tag).length := by
  unfold skips
  induction (tree.node id).children with
  | nil => rfl
  | cons child rest ih =>
    cases h : (tree.node child).occurrence with
    | none => simpa [Node.tag?, Node.skip?, h] using ih
    | some occurrence =>
      by_cases htag : occurrence.tag = tag <;> simpa [Node.tag?, Node.skip?, h, htag] using ih

theorem node_addChild {tree : LayoutTree} {parent : Nat} (hparent : parent < tree.nodes.size)
    (tag : Tag) (requirement : Requirement) (id : Nat) :
    (tree.addChild parent tag requirement).2.node id =
      if id = tree.nodes.size then
        .child ⟨tag, (tree.skips parent tag).length⟩ requirement parent
      else if id = parent then
        { tree.node id with children := (tree.node id).children ++ [tree.nodes.size] }
      else
        tree.node id := by
  unfold addChild
  rw [countP_tag?_eq_length_skips]
  simp only [node, Array.getElem?_modify, Array.getElem?_push]
  by_cases hnew : id = tree.nodes.size
  · have hne : parent ≠ tree.nodes.size := by omega
    simp [hnew, hne]
  · by_cases hid : parent = id
    · subst hid
      simp [hnew, hparent]
    · have hne : id ≠ parent := fun h => hid h.symm
      simp [hnew, hid, hne]

/-- Nodes that are there keep what they describe. -/
theorem occurrence_addChild {tree : LayoutTree} {parent : Nat} (hparent : parent < tree.nodes.size)
    (tag : Tag) (requirement : Requirement) {id : Nat} (hid : id < tree.nodes.size) :
    ((tree.addChild parent tag requirement).2.node id).occurrence = (tree.node id).occurrence := by
  have hne : id ≠ tree.nodes.size := by omega
  rw [node_addChild hparent, if_neg hne]
  split <;> rfl

theorem children_addChild {tree : LayoutTree} {parent : Nat} (hparent : parent < tree.nodes.size)
    (tag : Tag) (requirement : Requirement) (id : Nat) :
    ((tree.addChild parent tag requirement).2.node id).children =
      (tree.node id).children ++ if id = parent then [tree.nodes.size] else [] := by
  rw [node_addChild hparent]
  by_cases hnew : id = tree.nodes.size
  · have hne : id ≠ parent := by omega
    rw [if_pos hnew, if_neg hne, node_of_size_le hnew.ge]
    rfl
  · rw [if_neg hnew]
    split <;> simp

theorem skips_addChild {tree : LayoutTree} (wf : tree.WellFormed) {parent : Nat}
    (hparent : parent < tree.nodes.size) (tag : Tag) (requirement : Requirement) (id : Nat)
    (other : Tag) :
    (tree.addChild parent tag requirement).2.skips id other =
      tree.skips id other ++
        if id = parent ∧ tag = other then [(tree.skips parent tag).length] else [] := by
  have hold : ∀ child ∈ (tree.node id).children,
      ((tree.addChild parent tag requirement).2.node child).skip? other =
        (tree.node child).skip? other := by
    intro child hchild
    unfold Node.skip?
    rw [occurrence_addChild hparent tag requirement (wf.bounds id child hchild).2]
  have hnew : ((tree.addChild parent tag requirement).2.node tree.nodes.size).skip? other =
      if tag = other then some (tree.skips parent tag).length else none := by
    rw [node_addChild hparent, if_pos rfl]
    rfl
  rw [skips, children_addChild hparent, List.filterMap_append, List.filterMap_congr hold]
  congr 1
  by_cases hid : id = parent
  · rw [if_pos hid, List.filterMap_cons, hnew]
    by_cases htag : tag = other <;> simp [hid, htag]
  · simp [hid]

theorem WellFormed.addChild {tree : LayoutTree} (wf : tree.WellFormed) {parent : Nat}
    (hparent : parent < tree.nodes.size) (tag : Tag) (requirement : Requirement) :
    (tree.addChild parent tag requirement).2.WellFormed where
  bounds id child hchild := by
    rw [children_addChild hparent] at hchild
    rw [size_addChild]
    rcases List.mem_append.mp hchild with hold | hnew
    · have := wf.bounds id child hold
      omega
    · split at hnew
      · have : child = tree.nodes.size := by simpa using hnew
        omega
      · simp at hnew
  described id child hchild := by
    rw [children_addChild hparent] at hchild
    rcases List.mem_append.mp hchild with hold | hnew
    · rw [occurrence_addChild hparent tag requirement (wf.bounds id child hold).2]
      exact wf.described id child hold
    · split at hnew
      · have : child = tree.nodes.size := by simpa using hnew
        rw [node_addChild hparent, if_pos this]
        rfl
      · simp at hnew
  numbered id other := by
    rw [skips_addChild wf hparent]
    split
    · next h =>
      rw [h.1, h.2, List.length_append, List.length_singleton, List.range_succ,
        ← wf.numbered parent other]
    · simpa using wf.numbered id other

/-! ### Setting flags -/

/-- Flags of nodes do not matter to well-formedness. -/
theorem WellFormed.congr {tree other : LayoutTree} (wf : tree.WellFormed)
    (hsize : other.nodes.size = tree.nodes.size)
    (hchildren : ∀ id, (other.node id).children = (tree.node id).children)
    (hoccurrence : ∀ id, (other.node id).occurrence = (tree.node id).occurrence) :
    other.WellFormed where
  bounds id child hchild := by
    rw [hsize]
    exact wf.bounds id child (hchildren id ▸ hchild)
  described id child hchild := by
    rw [hoccurrence]
    exact wf.described id child (hchildren id ▸ hchild)
  numbered id tag := by
    have hskips : other.skips id tag = tree.skips id tag := by
      simp only [skips, Node.skip?, hchildren, hoccurrence]
    rw [hskips]
    exact wf.numbered id tag

theorem node_setOrder {tree : LayoutTree} {id : Nat} (hid : id < tree.nodes.size)
    (order : SiblingOrder) (other : Nat) :
    (tree.setOrder id order).node other =
      if other = id then { tree.node other with order } else tree.node other := by
  simp only [setOrder, node, Array.getElem?_modify]
  by_cases h : id = other
  · subst h
    simp [hid]
  · have hne : other ≠ id := fun heq => h heq.symm
    simp [h, hne]

theorem node_setAllowUnspecified {tree : LayoutTree} {id : Nat} (hid : id < tree.nodes.size)
    (allow : Bool) (other : Nat) :
    (tree.setAllowUnspecified id allow).node other =
      if other = id then { tree.node other with allowUnspecified := allow }
      else tree.node other := by
  simp only [setAllowUnspecified, node, Array.getElem?_modify]
  by_cases h : id = other
  · subst h
    simp [hid]
  · have hne : other ≠ id := fun heq => h heq.symm
    simp [h, hne]

theorem WellFormed.setOrder {tree : LayoutTree} (wf : tree.WellFormed) {id : Nat}
    (hid : id < tree.nodes.size) (order : SiblingOrder) : (tree.setOrder id order).WellFormed := by
  apply wf.congr (by simp [LayoutTree.setOrder]) <;>
  · intro other
    rw [node_setOrder hid]
    split <;> rfl

theorem WellFormed.setAllowUnspecified {tree : LayoutTree} (wf : tree.WellFormed) {id : Nat}
    (hid : id < tree.nodes.size) (allow : Bool) :
    (tree.setAllowUnspecified id allow).WellFormed := by
  apply wf.congr (by simp [LayoutTree.setAllowUnspecified]) <;>
  · intro other
    rw [node_setAllowUnspecified hid]
    split <;> rfl

theorem wellFormed_empty : empty.WellFormed := by
  have hroot : ∀ id, empty.node id = .root := by
    intro id
    cases id <;> simp [node, empty]
  constructor
  · intro id child hchild
    simp [hroot, Node.root] at hchild
  · intro id child hchild
    simp [hroot, Node.root] at hchild
  · intro id tag
    simp [skips, hroot, Node.root]

theorem Built.wellFormed {tree : LayoutTree} (built : Built tree) : tree.WellFormed := by
  induction built with
  | empty => exact wellFormed_empty
  | addChild _ hparent tag requirement ih => exact ih.addChild hparent tag requirement
  | setOrder _ hid order ih => exact ih.setOrder hid order
  | setAllowUnspecified _ hid allow ih => exact ih.setAllowUnspecified hid allow

/-! ### One child for each occurrence -/

/-- No two children of a node describe the same occurrence. -/
theorem WellFormed.position_unique {tree : LayoutTree} (wf : tree.WellFormed) {id : Nat}
    {i j a b : Nat} (ha : (tree.node id).children[i]? = some a)
    (hb : (tree.node id).children[j]? = some b)
    (hab : (tree.node a).occurrence = (tree.node b).occurrence) : i = j := by
  obtain ⟨occurrence, hocc⟩ := Option.isSome_iff_exists.mp
    (wf.described id a (List.mem_of_getElem? ha))
  have hskip : ∀ child, (tree.node child).occurrence = some occurrence →
      (tree.node child).skip? occurrence.tag = some occurrence.skip := by
    intro child h
    simp [Node.skip?, h]
  have hnodup : (tree.skips id occurrence.tag).Nodup := by
    rw [wf.numbered id occurrence.tag]
    exact List.nodup_range
  have hpairs := List.pairwise_iff_getElem.mp (List.pairwise_filterMap.mp hnodup)
  obtain ⟨hi, rfl⟩ := List.getElem?_eq_some_iff.mp ha
  obtain ⟨hj, rfl⟩ := List.getElem?_eq_some_iff.mp hb
  have hi' := hskip _ hocc
  have hj' := hskip _ (hab ▸ hocc)
  rcases Nat.lt_trichotomy i j with hlt | heq | hgt
  · exact absurd rfl (hpairs i j hi hj hlt _ hi' _ hj')
  · exact heq
  · exact absurd rfl (hpairs j i hj hi hgt _ hj' _ hi')

end SmartCard.LayoutTree
