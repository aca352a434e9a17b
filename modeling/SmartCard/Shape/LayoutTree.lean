import SmartCard.Shape.Layout

/-!
A layout with its nodes numbered in the order in which they were added, so that a node can be
named and added to. The root, number 0, stands for the data field itself.
-/

namespace SmartCard

/-- One of the occurrences of a tag among siblings: the one with `skip` others before it. -/
structure Occurrence where
  tag : Tag
  skip : Nat
deriving DecidableEq

namespace LayoutTree

/-- A node, with the numbers of its children and of its parent. -/
structure Node where
  /-- The occurrence that the node describes; the root describes none. -/
  occurrence : Option Occurrence
  requirement : Requirement
  order : SiblingOrder
  allowUnspecified : Bool
  children : List Nat
  parent : Option Nat
deriving DecidableEq

namespace Node

def root : Node :=
  ⟨none, .required, .strict, false, [], none⟩

/-- A node below `parent`, without children. -/
def child (occurrence : Occurrence) (requirement : Requirement) (parent : Nat) : Node :=
  ⟨some occurrence, requirement, .strict, false, [], some parent⟩

/-- The tag that a node describes an occurrence of. -/
def tag? (node : Node) : Option Tag :=
  node.occurrence.map (·.tag)

end Node

end LayoutTree

/-- A layout whose nodes are numbered. -/
structure LayoutTree where
  nodes : Array LayoutTree.Node
deriving DecidableEq

namespace LayoutTree

/-- A root without children, which expects nothing. -/
def empty : LayoutTree :=
  ⟨#[.root]⟩

def node (tree : LayoutTree) (id : Nat) : Node :=
  tree.nodes[id]?.getD .root

/-- Whether the tree places no expectation on the data field. -/
def isEmpty (tree : LayoutTree) : Bool :=
  (tree.node 0).children.isEmpty

/-- Adds a child to `parent`, for the first occurrence of `tag` that is not described there yet,
and gives its number. -/
def addChild (tree : LayoutTree) (parent : Nat) (tag : Tag) (requirement : Requirement) :
    Nat × LayoutTree :=
  let skip := (tree.node parent).children.countP fun child => (tree.node child).tag? = some tag
  let id := tree.nodes.size
  (id, ⟨(tree.nodes.push (.child ⟨tag, skip⟩ requirement parent)).modify parent fun node =>
    { node with children := node.children ++ [id] }⟩)

def setOrder (tree : LayoutTree) (id : Nat) (order : SiblingOrder) : LayoutTree :=
  ⟨tree.nodes.modify id fun node => { node with order := order }⟩

def setAllowUnspecified (tree : LayoutTree) (id : Nat) (allow : Bool) : LayoutTree :=
  ⟨tree.nodes.modify id fun node => { node with allowUnspecified := allow }⟩

mutual

/-- Adds a described tag, with everything below it, to `parent`. -/
def addLayout (tree : LayoutTree) (parent : Nat) : TagLayout → LayoutTree
  | .mk tag requirement order allowUnspecified children =>
    let (id, tree) := tree.addChild parent tag requirement
    addLayouts ((tree.setOrder id order).setAllowUnspecified id allowUnspecified) id children

/-- Adds described tags to `parent` one after the other. -/
def addLayouts (tree : LayoutTree) (parent : Nat) : List TagLayout → LayoutTree
  | [] => tree
  | layout :: rest => addLayouts (tree.addLayout parent layout) parent rest

end

/-- Numbers the nodes of a layout, each before those below it. -/
def ofLayout (layout : DataLayout) : LayoutTree :=
  ((empty.setOrder 0 layout.order).setAllowUnspecified 0 layout.allowUnspecified).addLayouts 0
    layout.children

/-- The layouts of the children of a node. A child has a larger number than its parent. -/
def layoutsBelow (tree : LayoutTree) (id : Nat) : List TagLayout :=
  (tree.node id).children.filterMap fun child =>
    if _h : id < child ∧ child < tree.nodes.size then
      let node := tree.node child
      node.occurrence.map fun occurrence =>
        .mk occurrence.tag node.requirement node.order node.allowUnspecified
          (tree.layoutsBelow child)
    else
      none
termination_by tree.nodes.size - id

def toLayout (tree : LayoutTree) : DataLayout :=
  ⟨(tree.node 0).order, (tree.node 0).allowUnspecified, tree.layoutsBelow 0⟩

end LayoutTree

end SmartCard
