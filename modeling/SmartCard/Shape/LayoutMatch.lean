import SmartCard.Shape.LayoutTree
import SmartCard.Shape.Verdict
import SmartCard.Tlv.Object

/-!
Matching data objects against a layout. The objects of one list are taken in order; each is looked
up among the children of a node by its tag and the number of its earlier occurrences.
-/

namespace SmartCard

namespace LayoutTree

/-- Why data objects do not match a layout. -/
inductive Mismatch where
  | unexpected (tag : Tag)
  | notAllowed (tag : Tag)
  | outOfOrder (tag : Tag)
  | missing (count : Nat)
deriving DecidableEq

def Mismatch.message : Mismatch → String
  | unexpected tag => "unexpected tag " ++ tag.text
  | notAllowed tag => "tag " ++ tag.text ++ " not allowed"
  | outOfOrder tag => "tag " ++ tag.text ++ " out of order"
  | missing count =>
    "missing " ++ count.repr ++ " more mandatory tag" ++ (if count = 1 then "" else "s")

/-- How often each tag has come up. -/
abbrev Tally := List (Tag × Nat)

namespace Tally

def count (tally : Tally) (tag : Tag) : Nat :=
  (tally.lookup tag).getD 0

def bump : Tally → Tag → Tally
  | [], tag => [(tag, 1)]
  | (other, count) :: rest, tag =>
    if other = tag then (other, count + 1) :: rest else (other, count) :: bump rest tag

end Tally

/-- What is known of a list after some of its objects. -/
structure Progress where
  tally : Tally
  /-- The last position that was described, kept only where the order matters. -/
  position : Nat
  /-- How many required occurrences have come up. -/
  required : Nat

def Progress.start : Progress :=
  ⟨[], 0, 0⟩

/-- The child that describes the occurrence `skip` of a tag, with its position. -/
def describing? (tree : LayoutTree) (node : Node) (tag : Tag) (skip : Nat) : Option (Nat × Node) :=
  (node.children.zipIdx.find? fun (child, _) =>
    (tree.node child).occurrence = some ⟨tag, skip⟩).map fun (child, position) =>
      (position, tree.node child)

/-- Takes one more object with `tag`, and gives the node that describes it, if one does. -/
def advance (tree : LayoutTree) (node : Node) (progress : Progress) (tag : Tag) :
    Except Mismatch (Progress × Option Node) :=
  let skip := progress.tally.count tag
  let tally := progress.tally.bump tag
  match tree.describing? node tag skip with
  | none =>
    if node.allowUnspecified then .ok ({ progress with tally }, none)
    else .error (.unexpected tag)
  | some (position, child) =>
    if child.requirement = .forbidden then
      .error (.notAllowed tag)
    else
      let required := if child.requirement = .required then progress.required + 1
        else progress.required
      match node.order with
      | .strict =>
        if position < progress.position then .error (.outOfOrder tag)
        else .ok (⟨tally, position, required⟩, some child)
      | .arbitrary => .ok ({ progress with tally, required }, some child)

def requiredCount (tree : LayoutTree) (node : Node) : Nat :=
  node.children.countP fun child => (tree.node child).requirement = .required

mutual

/-- Matches the remaining objects of a list against the children of a node. -/
def checkFrom (tree : LayoutTree) (node : Node) (progress : Progress) :
    List Object → Except Mismatch Unit
  | [] =>
    let missing := tree.requiredCount node - progress.required
    if 0 < missing then .error (.missing missing) else .ok ()
  | object :: rest =>
    match tree.advance node progress object.tag with
    | .error mismatch => .error mismatch
    | .ok (progress, none) => checkFrom tree node progress rest
    | .ok (progress, some child) =>
      match checkContent tree child object with
      | .error mismatch => .error mismatch
      | .ok () => checkFrom tree node progress rest

/-- Matches the content of an object against the node that describes it. An empty content and a
node without children place no expectation. -/
def checkContent (tree : LayoutTree) (node : Node) : Object → Except Mismatch Unit
  | .primitive _ _ => .ok ()
  | .constructed _ children =>
    if children.isEmpty || node.children.isEmpty then .ok ()
    else checkFrom tree node .start children

end

/-- Matches the data objects of a data field. -/
def check (tree : LayoutTree) (objects : List Object) : Except Mismatch Unit :=
  tree.checkFrom (tree.node 0) .start objects

/-- The verdict on the data objects of a data field. -/
def verdict (tree : LayoutTree) (objects : List Object) : Verdict :=
  match tree.check objects with
  | .ok () => .success
  | .error mismatch => ⟨.wrongData, mismatch.message⟩

end LayoutTree

end SmartCard
