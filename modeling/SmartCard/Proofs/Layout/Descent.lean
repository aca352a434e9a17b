import SmartCard.Proofs.Layout.Links

/-!
# Recursions down a layout tree

A recursion that goes from nodes to their children comes by every node of a tree as it is built
exactly once. Reading the layout back is such a recursion. Going down a list of objects by the
children that describe them is one as well: it leads to a node with one list of objects at most, and
there are objects for which it leads to every node.
-/

namespace SmartCard

/-- What a layout says of one tag, apart from what is below it. -/
structure TagLayout.Description where
  tag : Tag
  requirement : Requirement
  order : SiblingOrder
  allowUnspecified : Bool

mutual

/-- What a layout says of its tags, each before those below it. -/
def TagLayout.descriptions : TagLayout → List TagLayout.Description
  | .mk tag requirement order allowUnspecified children =>
    ⟨tag, requirement, order, allowUnspecified⟩ :: TagLayout.allDescriptions children

def TagLayout.allDescriptions : List TagLayout → List TagLayout.Description
  | [] => []
  | layout :: rest => layout.descriptions ++ TagLayout.allDescriptions rest

end

mutual

/-- An object with all tags of a layout, each as often as it is described. -/
def TagLayout.sample : TagLayout → Object
  | .mk tag _ _ _ children => .constructed tag (TagLayout.samples children)

def TagLayout.samples : List TagLayout → List Object
  | [] => []
  | layout :: rest => layout.sample :: TagLayout.samples rest

end

theorem TagLayout.samples_eq_map (layouts : List TagLayout) :
    samples layouts = layouts.map sample := by
  induction layouts with
  | nil => rfl
  | cons layout rest ih => rw [samples, ih, List.map_cons]

namespace LayoutTree

/-! ### Recursions down the children lists -/

/-- A recursion that goes from each of some nodes to its children, before the next one, comes by
`order`. -/
inductive Walks (tree : LayoutTree) : (ids order : List Nat) → Prop
  | nil : Walks tree [] []
  | cons {id : Nat} {rest below others : List Nat}
      (hbelow : Walks tree (tree.node id).children below) (hrest : Walks tree rest others) :
      Walks tree (id :: rest) (id :: (below ++ others))

theorem Walks.append {tree : LayoutTree} {ids others order order' : List Nat}
    (h : tree.Walks ids order) (h' : tree.Walks others order') :
    tree.Walks (ids ++ others) (order ++ order') := by
  induction h with
  | nil => exact h'
  | cons hbelow _ _ ih =>
    rw [List.cons_append, List.cons_append, List.append_assoc]
    exact .cons hbelow ih

theorem Walks.congr {tree other : LayoutTree} {ids order : List Nat} (h : tree.Walks ids order)
    (hchildren : ∀ id, (other.node id).children = (tree.node id).children) :
    other.Walks ids order := by
  induction h with
  | nil => exact .nil
  | cons _ _ ihbelow ihrest =>
    rw [← hchildren] at ihbelow
    exact .cons ihbelow ihrest

/-- Another child is come by once for each time that its parent is come by. -/
theorem Walks.addChild {tree : LayoutTree} {ids order : List Nat} (h : tree.Walks ids order)
    {parent : Nat} (hparent : parent < tree.nodes.size) (tag : Tag) (requirement : Requirement) :
    ∃ order', (tree.addChild parent tag requirement).2.Walks ids order' ∧
      order'.Perm (order ++ List.replicate (order.count parent) tree.nodes.size) := by
  induction h with
  | nil => exact ⟨[], .nil, .refl _⟩
  | @cons id rest below others _ _ ihbelow ihrest =>
    obtain ⟨below', hbelow', hbelow⟩ := ihbelow
    obtain ⟨others', hothers', hothers⟩ := ihrest
    let added := if id = parent then [tree.nodes.size] else []
    have hleaf : (tree.addChild parent tag requirement).2.Walks added added := by
      have hnew :
          ((tree.addChild parent tag requirement).2.node tree.nodes.size).children = [] := by
        rw [node_addChild hparent, if_pos rfl]
        rfl
      have hnone : (tree.addChild parent tag requirement).2.Walks
          ((tree.addChild parent tag requirement).2.node tree.nodes.size).children [] := by
        rw [hnew]
        exact .nil
      by_cases hid : id = parent
      · rw [show added = [tree.nodes.size] from if_pos hid]
        exact .cons hnone .nil
      · rw [show added = [] from if_neg hid]
        exact .nil
    have hchildren := hbelow'.append hleaf
    rw [← children_addChild hparent tag requirement id] at hchildren
    refine ⟨_, .cons hchildren hothers', ?_⟩
    rw [List.perm_iff_count] at hbelow hothers ⊢
    intro node
    have hadded : added.count node =
        if id = parent ∧ tree.nodes.size = node then 1 else 0 := by
      by_cases hid : id = parent
      · rw [show added = [tree.nodes.size] from if_pos hid]
        simp [hid, List.count_singleton]
      · rw [show added = [] from if_neg hid]
        simp [hid]
    have hbelow := hbelow node
    have hothers := hothers node
    simp only [List.count_cons, List.count_append, List.count_replicate, beq_iff_eq]
      at hbelow hothers ⊢
    rw [hbelow, hothers, hadded]
    by_cases hnode : tree.nodes.size = node
    · by_cases hid : id = parent
      · simp only [hnode, hid, and_self, if_true]
        omega
      · simp only [hnode, hid, false_and, if_true, if_false]
        omega
    · simp only [hnode, and_false, if_false]
      omega

/-- A recursion from the root comes to an end, and by every node exactly once. -/
theorem Built.walks {tree : LayoutTree} (built : Built tree) :
    ∃ order, tree.Walks [0] order ∧ order.Perm (List.range tree.nodes.size) := by
  induction built with
  | empty =>
    have hnone : LayoutTree.Walks .empty (LayoutTree.empty.node 0).children [] := .nil
    exact ⟨[0], .cons hnone .nil, .refl _⟩
  | @addChild tree parent _ hparent tag requirement ih =>
    obtain ⟨order, hwalks, hperm⟩ := ih
    obtain ⟨order', hwalks', hperm'⟩ := hwalks.addChild hparent tag requirement
    refine ⟨order', hwalks', hperm'.trans ?_⟩
    have hcount : order.count parent = 1 := by
      rw [hperm.count_eq, List.count_range, if_pos hparent]
    rw [hcount, size_addChild, List.range_succ]
    exact hperm.append_right _
  | setOrder _ hid order ih =>
    obtain ⟨walk, hwalks, hperm⟩ := ih
    refine ⟨walk, hwalks.congr fun other => ?_, by rwa [size_setOrder]⟩
    rw [node_setOrder hid]
    split <;> rfl
  | setAllowUnspecified _ hid allow ih =>
    obtain ⟨walk, hwalks, hperm⟩ := ih
    refine ⟨walk, hwalks.congr fun other => ?_, by rwa [size_setAllowUnspecified]⟩
    rw [node_setAllowUnspecified hid]
    split <;> rfl

/-! ### Reading the layout back -/

def Node.description? (node : Node) : Option TagLayout.Description :=
  node.occurrence.map fun occurrence =>
    ⟨occurrence.tag, node.requirement, node.order, node.allowUnspecified⟩

/-- The layout of a node that describes an occurrence. -/
def layout? (tree : LayoutTree) (id : Nat) : Option TagLayout :=
  (tree.node id).occurrence.map fun occurrence =>
    .mk occurrence.tag (tree.node id).requirement (tree.node id).order
      (tree.node id).allowUnspecified (tree.layoutsBelow id)

/-- Children lie behind their parents, so the recursion is on all of them. -/
theorem layoutsBelow_eq {tree : LayoutTree} (wf : tree.WellFormed) (id : Nat) :
    tree.layoutsBelow id = (tree.node id).children.filterMap tree.layout? := by
  rw [layoutsBelow]
  apply List.filterMap_congr
  intro child hchild
  rw [dif_pos (wf.bounds id child hchild)]
  rfl

theorem map_some_layoutsBelow {tree : LayoutTree} (wf : tree.WellFormed) (id : Nat) :
    (tree.layoutsBelow id).map some = (tree.node id).children.map tree.layout? := by
  have hdescribed := wf.described id
  rw [layoutsBelow_eq wf]
  generalize (tree.node id).children = children at hdescribed ⊢
  induction children with
  | nil => rfl
  | cons child rest ih =>
    obtain ⟨hchild, hrest⟩ := List.forall_mem_cons.mp hdescribed
    obtain ⟨occurrence, hoccurrence⟩ := Option.isSome_iff_exists.mp hchild
    have hlayout : tree.layout? child = some _ := congrArg (Option.map _) hoccurrence
    rw [List.filterMap_cons_some hlayout, List.map_cons, List.map_cons, ih hrest, hlayout]

theorem Walks.descriptions {tree : LayoutTree} (wf : tree.WellFormed) {ids order : List Nat}
    (h : tree.Walks ids order) (hids : ∀ id ∈ ids, (tree.node id).occurrence.isSome) :
    order.map (fun id => (tree.node id).description?) =
      (TagLayout.allDescriptions (ids.filterMap tree.layout?)).map some := by
  induction h with
  | nil => rfl
  | @cons id rest below others _ _ ihbelow ihrest =>
    obtain ⟨hid, hrest⟩ := List.forall_mem_cons.mp hids
    obtain ⟨occurrence, hoccurrence⟩ := Option.isSome_iff_exists.mp hid
    have hlayout : tree.layout? id = some _ := congrArg (Option.map _) hoccurrence
    have hdescription : (tree.node id).description? = some _ := congrArg (Option.map _) hoccurrence
    have hbelow := ihbelow (wf.described id)
    rw [← layoutsBelow_eq wf] at hbelow
    rw [List.filterMap_cons_some hlayout, TagLayout.allDescriptions, TagLayout.descriptions,
      List.map_cons, List.map_append, hdescription, hbelow, ihrest hrest, ← List.map_append,
      List.cons_append, List.map_cons]

/-! ### Going down a list of objects -/

/-- Going down `objects` by the children that describe them leads to the node `id` with `content`,
whether or not matching stops before. -/
inductive Meets (tree : LayoutTree) (objects : List Object) : Nat → List Object → Prop
  | root : Meets tree objects 0 objects
  | child {id child index position : Nat} {content : List Object} {object : Object}
      (hmeets : Meets tree objects id content)
      (hchild : (tree.node id).children[position]? = some child)
      (hdescribes : tree.Describes (tree.node id) content index position (tree.node child))
      (hobject : content[index]? = some object) : Meets tree objects child object.children

theorem Linked.root_not_listed {tree : LayoutTree} (h : tree.Linked) {id position : Nat} :
    (tree.node id).children[position]? ≠ some 0 := by
  intro hchild
  have hparent := (h.child_iff 0 id).mp (List.mem_of_getElem? hchild)
  rw [((h.root 0 h.nonempty).1.mpr rfl)] at hparent
  cases hparent

/-- A node is come to with one list of objects at most. -/
theorem Meets.unique {tree : LayoutTree} (wf : tree.WellFormed) (linked : tree.Linked)
    {objects content other : List Object} {id : Nat} (h : tree.Meets objects id content)
    (hother : tree.Meets objects id other) : content = other := by
  induction h generalizing other with
  | root =>
    generalize hroot : 0 = id at hother
    cases hother with
    | root => rfl
    | child _ hchild => exact absurd (hroot ▸ hchild) linked.root_not_listed
  | @child id child index position content object _ hchild hdescribes hobject ih =>
    cases hother with
    | root => exact absurd hchild linked.root_not_listed
    | @child id' _ index' position' content' object' hmeets' hchild' hdescribes' hobject' =>
      have hparent := (linked.child_iff child id).mp (List.mem_of_getElem? hchild)
      have hparent' := (linked.child_iff child id').mp (List.mem_of_getElem? hchild')
      obtain rfl : id = id' := Option.some.inj (hparent.symm.trans hparent')
      obtain rfl := ih hmeets'
      obtain rfl := wf.position_unique hchild hchild' rfl
      obtain rfl := hdescribes.index_unique hdescribes'
      rw [Option.some.inj (hobject.symm.trans hobject')]

/-- The skip of a child is the number of children before it that have its tag. -/
theorem WellFormed.skip_eq {tree : LayoutTree} (wf : tree.WellFormed) {id child position : Nat}
    {occurrence : Occurrence} (hchild : (tree.node id).children[position]? = some child)
    (hoccurrence : (tree.node child).occurrence = some occurrence) :
    occurrence.skip = ((tree.node id).children.take position).countP fun earlier =>
      (tree.node earlier).tag? = some occurrence.tag := by
  let skip := fun child => (tree.node child).skip? occurrence.tag
  obtain ⟨hposition, rfl⟩ := List.getElem?_eq_some_iff.mp hchild
  have hskip : skip (tree.node id).children[position] = some occurrence.skip := by
    simp [skip, Node.skip?, hoccurrence]
  have hsplit : tree.skips id occurrence.tag =
      ((tree.node id).children.take position).filterMap skip ++
        occurrence.skip :: ((tree.node id).children.drop (position + 1)).filterMap skip := by
    conv_lhs => rw [skips, ← List.take_append_drop position (tree.node id).children,
      List.drop_eq_getElem_cons hposition]
    rw [List.filterMap_append, List.filterMap_cons_some hskip]
  have hcount : ∀ children : List Nat, (children.filterMap skip).length =
      children.countP fun earlier => (tree.node earlier).tag? = some occurrence.tag := by
    intro children
    rw [List.length_filterMap_eq_countP]
    apply List.countP_congr
    intro earlier _
    cases h : (tree.node earlier).occurrence with
    | none => simp [skip, Node.skip?, Node.tag?, h]
    | some other => by_cases htag : other.tag = occurrence.tag <;>
        simp [skip, Node.skip?, Node.tag?, h, htag]
  have hrange := wf.numbered id occurrence.tag
  rw [hsplit] at hrange
  have hat := congrArg (·[(((tree.node id).children.take position).filterMap skip).length]?) hrange
  rw [← hcount]
  simpa [List.getElem?_range] using hat

theorem tag_samples {tree : LayoutTree} (wf : tree.WellFormed) (id : Nat) :
    (TagLayout.samples (tree.layoutsBelow id)).map (some ·.tag) =
      (tree.node id).children.map fun child => (tree.node child).tag? := by
  have hlayouts := congrArg (List.map (Option.map fun layout => layout.sample.tag))
    (map_some_layoutsBelow wf id)
  rw [List.map_map, List.map_map] at hlayouts
  rw [TagLayout.samples_eq_map, List.map_map]
  refine Eq.trans hlayouts (List.map_congr_left fun child _ => ?_)
  cases h : (tree.node child).occurrence <;>
    simp [layout?, Node.tag?, h, TagLayout.sample, Object.tag]

/-- Of the samples of its children, each child describes its own. -/
theorem describes_samples {tree : LayoutTree} (wf : tree.WellFormed) {id child position : Nat}
    (hchild : (tree.node id).children[position]? = some child) :
    ∃ object, (TagLayout.samples (tree.layoutsBelow id))[position]? = some object ∧
      object.children = TagLayout.samples (tree.layoutsBelow child) ∧
      tree.Describes (tree.node id) (TagLayout.samples (tree.layoutsBelow id)) position position
        (tree.node child) := by
  obtain ⟨occurrence, hoccurrence⟩ := Option.isSome_iff_exists.mp
    (wf.described id child (List.mem_of_getElem? hchild))
  have hlayout := congrArg (·[position]?) (map_some_layoutsBelow wf id)
  simp only [List.getElem?_map, hchild, Option.map_some] at hlayout
  obtain ⟨layout, hat, hsome⟩ := Option.map_eq_some_iff.mp hlayout
  rw [layout?, hoccurrence, Option.map_some, Option.some.injEq] at hsome
  have hobject : (TagLayout.samples (tree.layoutsBelow id))[position]? = some layout.sample := by
    rw [TagLayout.samples_eq_map, List.getElem?_map, hat, Option.map_some]
  refine ⟨layout.sample, hobject, by rw [hsome, TagLayout.sample, Object.children], ?_⟩
  refine ⟨child, occurrence, hchild, rfl, hoccurrence, ?_⟩
  have hcount : ((TagLayout.samples (tree.layoutsBelow id)).take position).countP
      (·.tag = occurrence.tag) = occurrence.skip := by
    rw [wf.skip_eq hchild hoccurrence]
    have htags := congrArg (fun tags => (tags.take position).countP (· = some occurrence.tag))
      (tag_samples wf id)
    simpa [← List.map_take, List.countP_map, Function.comp_def] using htags
  have htag : layout.sample.tag = occurrence.tag := by
    rw [hsome, TagLayout.sample, Object.tag]
  rw [occurrenceAt?, hobject, Option.map_some, htag, hcount]

theorem meets_samples {tree : LayoutTree} (wf : tree.WellFormed) (linked : tree.Linked) {id : Nat}
    (hid : id < tree.nodes.size) :
    tree.Meets (TagLayout.samples (tree.layoutsBelow 0)) id
      (TagLayout.samples (tree.layoutsBelow id)) := by
  induction id using Nat.strong_induction_on with
  | _ id ih =>
    cases hparent : (tree.node id).parent with
    | none =>
      rw [(linked.root id hid).1.mp hparent]
      exact .root
    | some parent =>
      have hmem := (linked.child_iff id parent).mpr hparent
      have hlt := (wf.bounds parent id hmem).1
      obtain ⟨position, hposition⟩ := List.getElem?_of_mem hmem
      obtain ⟨object, hobject, hchildren, hdescribes⟩ := describes_samples wf hposition
      rw [← hchildren]
      exact .child (ih parent hlt (by omega)) hposition hdescribes hobject

end LayoutTree

end SmartCard
