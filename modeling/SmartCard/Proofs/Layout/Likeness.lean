import SmartCard.Proofs.Layout.Grafting
import SmartCard.Proofs.Layout.Meaning

/-!
# Trees of one layout

Trees to which the same tags were added in another order number their nodes in other ways. Matching
names a child by its place among its siblings and by the occurrence that it describes, both of which
the layout tells, so that it treats all trees of one layout alike.
-/

namespace SmartCard

namespace TagLayout

def tag : TagLayout → Tag
  | mk tag .. => tag

def requirement : TagLayout → Requirement
  | mk _ requirement .. => requirement

end TagLayout

namespace LayoutTree

theorem map_tag?_children {tree : LayoutTree} (wf : tree.WellFormed) (id : Nat) :
    (tree.node id).children.map (fun child => (tree.node child).tag?) =
      (tree.layoutsBelow id).map fun layout => some layout.tag := by
  have hlayouts := congrArg (List.map (Option.map TagLayout.tag)) (map_some_layoutsBelow wf id)
  rw [List.map_map, List.map_map] at hlayouts
  refine Eq.trans (List.map_congr_left fun child _ => ?_) hlayouts.symm
  cases h : (tree.node child).occurrence <;> simp [layout?, Node.tag?, h, TagLayout.tag]

theorem requiredCount_eq {tree : LayoutTree} (wf : tree.WellFormed) (id : Nat) :
    tree.requiredCount (tree.node id) =
      (tree.layoutsBelow id).countP fun layout => layout.requirement = .required := by
  have hsome : ∀ child ∈ (tree.node id).children,
      (tree.layout? child).map TagLayout.requirement = some (tree.node child).requirement := by
    intro child hchild
    obtain ⟨occurrence, hoccurrence⟩ := Option.isSome_iff_exists.mp (wf.described id child hchild)
    rw [layout?, hoccurrence]
    rfl
  have hcount : ∀ layouts : List TagLayout,
      layouts.countP (fun layout => layout.requirement = .required) =
        (layouts.map some).countP fun layout? =>
          layout?.map TagLayout.requirement = some .required := by
    intro layouts
    rw [List.countP_map]
    apply List.countP_congr
    simp
  -- the layouts and the nodes are counted over the same list
  rw [hcount, map_some_layoutsBelow wf, List.countP_map, requiredCount]
  apply List.countP_congr
  intro child hchild
  rw [Function.comp_apply, hsome child hchild]
  simp

/-! ### Nodes that say the same -/

/-- Nodes of two trees with the same flags and the same layouts below them. -/
structure Alike (tree other : LayoutTree) (id id' : Nat) : Prop where
  order : (tree.node id).order = (other.node id').order
  allowUnspecified : (tree.node id).allowUnspecified = (other.node id').allowUnspecified
  layouts : tree.layoutsBelow id = other.layoutsBelow id'

theorem Alike.symm {tree other : LayoutTree} {id id' : Nat} (h : tree.Alike other id id') :
    other.Alike tree id' id :=
  ⟨h.order.symm, h.allowUnspecified.symm, h.layouts.symm⟩

section

variable {tree other : LayoutTree} (wf : tree.WellFormed) (wf' : other.WellFormed)

include wf wf'

/-- Children at the same place describe the same occurrence and are alike in their turn. -/
theorem Alike.child {id id' : Nat} (h : tree.Alike other id id') {position child : Nat}
    (hchild : (tree.node id).children[position]? = some child) :
    ∃ child', (other.node id').children[position]? = some child' ∧
      (tree.node child).occurrence = (other.node child').occurrence ∧
      (tree.node child).requirement = (other.node child').requirement ∧
      tree.Alike other child child' := by
  have hlayouts : (tree.node id).children.map tree.layout? =
      (other.node id').children.map other.layout? := by
    rw [← map_some_layoutsBelow wf, ← map_some_layoutsBelow wf', h.layouts]
  have htags : (tree.node id).children.map (fun child => (tree.node child).tag?) =
      (other.node id').children.map fun child => (other.node child).tag? := by
    rw [map_tag?_children wf, map_tag?_children wf', h.layouts]
  have hat := congrArg (·[position]?) hlayouts
  simp only [List.getElem?_map, hchild, Option.map_some] at hat
  obtain ⟨child', hchild', hlayout⟩ := Option.map_eq_some_iff.mp hat.symm
  obtain ⟨⟨tag, skip⟩, hoccurrence⟩ := Option.isSome_iff_exists.mp
    (wf.described id child (List.mem_of_getElem? hchild))
  obtain ⟨⟨tag', skip'⟩, hoccurrence'⟩ := Option.isSome_iff_exists.mp
    (wf'.described id' child' (List.mem_of_getElem? hchild'))
  rw [layout?, layout?, hoccurrence, hoccurrence', Option.map_some, Option.map_some,
    Option.some.injEq, TagLayout.mk.injEq] at hlayout
  obtain ⟨htag, hrequirement, horder, hallow, hbelow⟩ := hlayout
  obtain rfl : tag' = tag := htag
  -- the skip counts the siblings before that have the tag
  have hskip : skip = skip' := by
    have hcount := congrArg (fun tags => (tags.take position).countP (· = some tag')) htags
    have hleft := wf.skip_eq hchild hoccurrence
    have hright := wf'.skip_eq hchild' hoccurrence'
    simp only [← List.map_take, List.countP_map, Function.comp_def] at hcount hleft hright
    rw [hleft, hright, hcount]
  refine ⟨child', hchild', ?_, hrequirement.symm, horder.symm, hallow.symm, hbelow.symm⟩
  rw [hoccurrence, hoccurrence', hskip]

theorem Alike.describing? {id id' : Nat} (h : tree.Alike other id id') (tag : Tag) (skip : Nat) :
    (tree.describing? (tree.node id) tag skip = none ∧
        other.describing? (other.node id') tag skip = none) ∨
      ∃ position child child',
        tree.describing? (tree.node id) tag skip = some (position, tree.node child) ∧
        other.describing? (other.node id') tag skip = some (position, other.node child') ∧
        (tree.node child).requirement = (other.node child').requirement ∧
        tree.Alike other child child' := by
  cases hfound : tree.describing? (tree.node id) tag skip with
  | some hit =>
    obtain ⟨position, node⟩ := hit
    obtain ⟨child, hchild, rfl, hoccurrence⟩ := (describing?_eq_some_iff wf).mp hfound
    obtain ⟨child', hchild', hsame, hrequirement, halike⟩ := h.child wf wf' hchild
    have hfound' : other.describing? (other.node id') tag skip =
        some (position, other.node child') :=
      (describing?_eq_some_iff wf').mpr ⟨child', hchild', rfl, hsame.symm.trans hoccurrence⟩
    exact .inr ⟨position, child, child', rfl, hfound', hrequirement, halike⟩
  | none =>
    refine .inl ⟨rfl, ?_⟩
    cases hfound' : other.describing? (other.node id') tag skip with
    | none => rfl
    | some hit =>
      obtain ⟨position, node⟩ := hit
      obtain ⟨child', hchild', rfl, hoccurrence⟩ := (describing?_eq_some_iff wf').mp hfound'
      obtain ⟨child, hchild, hsame, _⟩ := h.symm.child wf' wf hchild'
      have hother : tree.describing? (tree.node id) tag skip = some (position, tree.node child) :=
        (describing?_eq_some_iff wf).mpr ⟨child, hchild, rfl, hsame.symm.trans hoccurrence⟩
      rw [hfound] at hother
      cases hother

theorem Alike.isEmpty_children {id id' : Nat} (h : tree.Alike other id id') :
    (tree.node id).children.isEmpty = (other.node id').children.isEmpty := by
  have hlayouts := congrArg List.isEmpty (map_some_layoutsBelow wf id)
  have hlayouts' := congrArg List.isEmpty (map_some_layoutsBelow wf' id')
  simp only [List.isEmpty_map] at hlayouts hlayouts'
  rw [← hlayouts, ← hlayouts', h.layouts]

/-- A step over one object is the same for both, and so is what it leaves to compare. -/
theorem Alike.advance {id id' : Nat} (h : tree.Alike other id id') (progress : Progress)
    (tag : Tag) :
    (∃ mismatch, tree.advance (tree.node id) progress tag = .error mismatch ∧
        other.advance (other.node id') progress tag = .error mismatch) ∨
      (∃ next, tree.advance (tree.node id) progress tag = .ok (next, none) ∧
        other.advance (other.node id') progress tag = .ok (next, none)) ∨
      ∃ next child child',
        tree.advance (tree.node id) progress tag = .ok (next, some (tree.node child)) ∧
        other.advance (other.node id') progress tag = .ok (next, some (other.node child')) ∧
        tree.Alike other child child' := by
  rcases h.describing? wf wf' tag (progress.tally.count tag) with
    ⟨hnone, hnone'⟩ | ⟨position, child, child', hsome, hsome', hrequirement, halike⟩
  · simp only [LayoutTree.advance, hnone, hnone', h.allowUnspecified]
    split
    · exact .inr (.inl ⟨_, rfl, rfl⟩)
    · exact .inl ⟨_, rfl, rfl⟩
  · simp only [LayoutTree.advance, hsome, hsome', hrequirement, h.order]
    split
    · exact .inl ⟨_, rfl, rfl⟩
    · split
      · split
        · exact .inl ⟨_, rfl, rfl⟩
        · exact .inr (.inr ⟨_, child, child', rfl, rfl, halike⟩)
      · exact .inr (.inr ⟨_, child, child', rfl, rfl, halike⟩)

mutual

theorem Alike.checkFrom_eq {id id' : Nat} (h : tree.Alike other id id') (progress : Progress) :
    (objects : List Object) → tree.checkFrom (tree.node id) progress objects =
      other.checkFrom (other.node id') progress objects
  | [] => by
    have hcount : tree.requiredCount (tree.node id) = other.requiredCount (other.node id') := by
      rw [requiredCount_eq wf, requiredCount_eq wf', h.layouts]
    rw [checkFrom, checkFrom, hcount]
  | object :: rest => by
    rw [checkFrom, checkFrom]
    rcases h.advance wf wf' progress object.tag with
      ⟨mismatch, herror, herror'⟩ | ⟨next, hskip, hskip'⟩ |
        ⟨next, child, child', hmet, hmet', halike⟩
    · rw [herror, herror']
    · rw [hskip, hskip']
      exact h.checkFrom_eq next rest
    · rw [hmet, hmet']
      dsimp only
      rw [halike.checkContent_eq object, h.checkFrom_eq next rest]

theorem Alike.checkContent_eq {id id' : Nat} (h : tree.Alike other id id') :
    (object : Object) → tree.checkContent (tree.node id) object =
      other.checkContent (other.node id') object
  | .primitive _ _ => by rw [checkContent, checkContent]
  | .constructed _ children => by
    rw [checkContent, checkContent, h.isEmpty_children wf wf', h.checkFrom_eq .start children]

end

end

/-! ### Verdicts -/

theorem Alike.verdict_eq {tree other : LayoutTree} (built : Built tree) (built' : Built other)
    (h : tree.Alike other 0 0) (objects : List Object) :
    tree.verdict objects = other.verdict objects := by
  rw [verdict, verdict, check, check,
    h.checkFrom_eq built.wellFormed built'.wellFormed .start objects]

theorem alike_ofLayout_toLayout (tree : LayoutTree) : (ofLayout tree.toLayout).Alike tree 0 0 := by
  obtain ⟨horder, hallow, hchildren⟩ := root_ofLayout tree.toLayout
  exact ⟨horder, hallow, hchildren⟩

/-- The verdict of a tree is that of its layout, however the tree came to be. -/
theorem verdict_eq_of_toLayout_eq {tree : LayoutTree} (built : Built tree) :
    (∀ other : LayoutTree, Built other → tree.toLayout = other.toLayout →
      ∀ objects, tree.verdict objects = other.verdict objects) ∧
    ∀ objects, (ofLayout tree.toLayout).verdict objects = tree.verdict objects := by
  constructor
  · intro other built' hlayout
    obtain ⟨horder, hallow, hchildren⟩ := DataLayout.mk.inj hlayout
    have halike : tree.Alike other 0 0 := ⟨horder, hallow, hchildren⟩
    exact halike.verdict_eq built built'
  · exact (alike_ofLayout_toLayout tree).verdict_eq (built_ofLayout _) built

/-- Two tags, the first one with another tag inside. -/
def nestedLayout : DataLayout :=
  .ofTags [(TagLayout.leaf (.context 1#4) .required).withChildren [.leaf (.context 3#4) .required],
    .leaf (.context 2#4) .optional]

/-- The same tags, the inner one added last. -/
def lateTree : LayoutTree :=
  (((empty.addChild 0 (.context 1#4) .required).2.addChild 0 (.context 2#4) .optional).2.addChild 1
    (.context 3#4) .required).2

theorem built_lateTree : Built lateTree := by
  have hroot : 0 < empty.nodes.size := by decide
  exact ((Built.empty.addChild hroot _ _).addChild (by decide) _ _).addChild (by decide) _ _

theorem toLayout_lateTree : lateTree.toLayout = nestedLayout := by
  have wf := built_lateTree.wellFormed
  have h0 : lateTree.node 0 = { Node.root with children := [1, 2] } := by decide
  have h1 : lateTree.node 1 =
      { Node.child ⟨.context 1#4, 0⟩ .required 0 with children := [3] } := by decide
  have h2 : lateTree.node 2 = .child ⟨.context 2#4, 0⟩ .optional 0 := by decide
  have h3 : lateTree.node 3 = .child ⟨.context 3#4, 0⟩ .required 1 := by decide
  have below3 : lateTree.layoutsBelow 3 = [] := by
    rw [layoutsBelow_eq wf, h3]
    rfl
  have below2 : lateTree.layoutsBelow 2 = [] := by
    rw [layoutsBelow_eq wf, h2]
    rfl
  have below1 : lateTree.layoutsBelow 1 = [.leaf (.context 3#4) .required] := by
    rw [layoutsBelow_eq wf, h1]
    simp [layout?, h3, below3, Node.child, TagLayout.leaf]
  rw [toLayout, layoutsBelow_eq wf, h0]
  simp [layout?, h1, h2, below1, below2, Node.child, Node.root, nestedLayout, DataLayout.ofTags,
    TagLayout.leaf, TagLayout.withChildren]

theorem verdict_lateTree :
    lateTree ≠ ofLayout nestedLayout ∧ lateTree.toLayout = (ofLayout nestedLayout).toLayout ∧
      (∀ objects, lateTree.verdict objects = (ofLayout nestedLayout).verdict objects) ∧
      ∀ objects, (ofLayout lateTree.toLayout).verdict objects = lateTree.verdict objects := by
  obtain ⟨hall, hround⟩ := verdict_eq_of_toLayout_eq built_lateTree
  have hlayout : lateTree.toLayout = (ofLayout nestedLayout).toLayout := by
    obtain ⟨horder, hallow, hchildren⟩ := root_ofLayout nestedLayout
    rw [toLayout_lateTree, toLayout, horder, hallow, hchildren]
  exact ⟨by decide, hlayout, hall _ (built_ofLayout nestedLayout) hlayout, hround⟩

end LayoutTree

end SmartCard
