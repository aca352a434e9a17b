import Mathlib.Data.List.Perm.Subperm
import SmartCard.Proofs.Layout.Arena
import SmartCard.Shape.LayoutMatch

/-!
# What a layout tree says about data objects

`LayoutTree.Conforms` is the meaning of a tree, stated on the positions of data objects and of the
children of a node, without tallies or running maxima. On trees as they are built, matching decides
it: an occurrence is described at most once, so that counting required occurrences tells whether
all of them came up, and positions that never fall never repeat.
-/

namespace SmartCard.LayoutTree

/-- The occurrence that the object at `index` is: one with as many others before it as earlier
objects of the list have its tag. -/
def occurrenceAt? (objects : List Object) (index : Nat) : Option Occurrence :=
  objects[index]?.map fun object =>
    ⟨object.tag, (objects.take index).countP (·.tag = object.tag)⟩

/-- The child of `node` at `position`, which is `child`, describes the object at `index`. -/
def Describes (tree : LayoutTree) (node : Node) (objects : List Object) (index position : Nat)
    (child : Node) : Prop :=
  ∃ id occurrence, node.children[position]? = some id ∧ tree.node id = child ∧
    child.occurrence = some occurrence ∧ occurrenceAt? objects index = some occurrence

/-- What a node says about a list of objects, apart from what they contain. -/
structure Fits (tree : LayoutTree) (node : Node) (objects : List Object) : Prop where
  /-- Each object is described by a child that allows it, or it is not described and need not
  be. -/
  admitted : ∀ index, index < objects.length →
    (∃ position child, tree.Describes node objects index position child ∧
      child.requirement ≠ .forbidden) ∨
    ((∀ position child, ¬ tree.Describes node objects index position child) ∧
      node.allowUnspecified = true)
  /-- Where the order matters, later objects are described at later positions. -/
  ordered : node.order = .strict → ∀ i j p q a b, i < j → tree.Describes node objects i p a →
    tree.Describes node objects j q b → p < q
  /-- Every required child describes an object. -/
  complete : ∀ position id, node.children[position]? = some id →
    (tree.node id).requirement = .required →
    ∃ index, tree.Describes node objects index position (tree.node id)

/-- The meaning of a node: a list of objects fits it, and so does the content of each described
object for the child that describes it, unless either of the two is empty. -/
inductive Conforms (tree : LayoutTree) : Node → List Object → Prop
  | intro {node : Node} {objects : List Object} (fits : tree.Fits node objects)
      (nested : ∀ index position child object, objects[index]? = some object →
        tree.Describes node objects index position child → object.children ≠ [] →
        child.children ≠ [] → tree.Conforms child object.children) :
      tree.Conforms node objects

/-! ### Looking up the child that describes an object -/

/-- The child that describes the object at `index`, with its position. -/
def describingAt? (tree : LayoutTree) (node : Node) (objects : List Object) (index : Nat) :
    Option (Nat × Node) :=
  (occurrenceAt? objects index).bind fun occurrence =>
    tree.describing? node occurrence.tag occurrence.skip

theorem Describes.unique {tree : LayoutTree} (wf : tree.WellFormed) {id : Nat}
    {objects : List Object} {index p q : Nat} {a b : Node}
    (ha : tree.Describes (tree.node id) objects index p a)
    (hb : tree.Describes (tree.node id) objects index q b) : p = q ∧ a = b := by
  obtain ⟨i, occurrence, hi, rfl, hocc, hat⟩ := ha
  obtain ⟨j, other, hj, rfl, hother, hat'⟩ := hb
  obtain rfl : occurrence = other := Option.some.inj (hat ▸ hat')
  obtain rfl := wf.position_unique hi hj (hocc.trans hother.symm)
  obtain rfl : i = j := Option.some.inj (hi ▸ hj)
  exact ⟨rfl, rfl⟩

theorem occurrenceAt?_injective {objects : List Object} {i j : Nat} {occurrence : Occurrence}
    (hi : occurrenceAt? objects i = some occurrence)
    (hj : occurrenceAt? objects j = some occurrence) : i = j := by
  -- an earlier object with the same tag is counted before the later one
  have hlt : ∀ i j, occurrenceAt? objects i = some occurrence →
      occurrenceAt? objects j = some occurrence → ¬ i < j := by
    intro i j hi hj hij
    obtain ⟨a, ha, rfl⟩ := Option.map_eq_some_iff.mp hi
    obtain ⟨b, hb, heq⟩ := Option.map_eq_some_iff.mp hj
    obtain ⟨htag, hskip⟩ := Occurrence.mk.inj heq
    have hsub : (objects.take (i + 1)).Sublist (objects.take j) :=
      List.take_sublist_take_left hij
    have hle := hsub.countP_le (p := fun object => decide (object.tag = a.tag))
    rw [List.take_add_one, ha] at hle
    simp only [Option.toList_some, List.countP_append, List.countP_singleton, decide_true,
      if_true] at hle
    rw [htag] at hskip
    omega
  have := hlt i j hi hj
  have := hlt j i hj hi
  omega

/-- A child describes at most one object of a list. -/
theorem Describes.index_unique {tree : LayoutTree} {node : Node} {objects : List Object}
    {i j position : Nat} {a b : Node} (ha : tree.Describes node objects i position a)
    (hb : tree.Describes node objects j position b) : i = j := by
  obtain ⟨id, occurrence, hid, rfl, hocc, hi⟩ := ha
  obtain ⟨other, occurrence', hother, rfl, hocc', hj⟩ := hb
  obtain rfl : id = other := Option.some.inj (hid ▸ hother)
  obtain rfl : occurrence = occurrence' := Option.some.inj (hocc ▸ hocc')
  exact occurrenceAt?_injective hi hj

/-- The child that is looked up is the one that describes the occurrence. -/
theorem describing?_eq_some_iff {tree : LayoutTree} (wf : tree.WellFormed) {id : Nat} {tag : Tag}
    {skip position : Nat} {node : Node} :
    tree.describing? (tree.node id) tag skip = some (position, node) ↔
      ∃ child, (tree.node id).children[position]? = some child ∧ tree.node child = node ∧
        node.occurrence = some ⟨tag, skip⟩ := by
  have sound : ∀ position node, tree.describing? (tree.node id) tag skip = some (position, node) →
      ∃ child, (tree.node id).children[position]? = some child ∧ tree.node child = node ∧
        node.occurrence = some ⟨tag, skip⟩ := by
    intro position node h
    obtain ⟨⟨child, place⟩, hfind, heq⟩ := Option.map_eq_some_iff.mp h
    obtain ⟨rfl, rfl⟩ := Prod.mk.inj heq
    refine ⟨child, ?_, rfl, ?_⟩
    · exact List.mem_zipIdx_iff_getElem?.mp (List.mem_of_find?_eq_some hfind)
    · simpa using List.find?_some hfind
  refine ⟨sound position node, ?_⟩
  rintro ⟨child, hchild, rfl, hoccurrence⟩
  have hsome : (tree.describing? (tree.node id) tag skip).isSome := by
    rw [describing?, Option.isSome_map, List.find?_isSome]
    exact ⟨(child, position), List.mem_zipIdx_iff_getElem?.mpr hchild, by simpa using hoccurrence⟩
  obtain ⟨⟨place, node⟩, hfound⟩ := Option.isSome_iff_exists.mp hsome
  obtain ⟨other, hother, rfl, hsame⟩ := sound _ _ hfound
  obtain rfl := wf.position_unique hchild hother (hoccurrence.trans hsame.symm)
  obtain rfl : child = other := Option.some.inj (hchild.symm.trans hother)
  exact hfound

theorem describingAt?_eq_some_iff {tree : LayoutTree} (wf : tree.WellFormed) {id : Nat}
    {objects : List Object} {index position : Nat} {child : Node} :
    tree.describingAt? (tree.node id) objects index = some (position, child) ↔
      tree.Describes (tree.node id) objects index position child := by
  rw [describingAt?, Option.bind_eq_some_iff]
  constructor
  · rintro ⟨occurrence, hat, hfound⟩
    obtain ⟨childId, hchild, hnode, hoccurrence⟩ := (describing?_eq_some_iff wf).mp hfound
    exact ⟨childId, occurrence, hchild, hnode, hoccurrence, hat⟩
  · rintro ⟨childId, occurrence, hchild, hnode, hoccurrence, hat⟩
    exact ⟨occurrence, hat, (describing?_eq_some_iff wf).mpr ⟨childId, hchild, hnode, hoccurrence⟩⟩

/-! ### The loop over the objects of one list -/

theorem Tally.count_cons (head : Tag) (number : Nat) (rest : Tally) (tag : Tag) :
    count ((head, number) :: rest) tag = if tag = head then number else count rest tag := by
  unfold count
  rw [List.lookup_cons]
  by_cases h : tag = head
  · simp [h]
  · rw [beq_false_of_ne h, if_neg h]

theorem Tally.count_bump (tally : Tally) (tag other : Tag) :
    (tally.bump tag).count other = tally.count other + if other = tag then 1 else 0 := by
  induction tally with
  | nil =>
    rw [bump, count_cons]
    split <;> rfl
  | cons entry rest ih =>
    obtain ⟨head, number⟩ := entry
    unfold bump
    by_cases hhead : head = tag
    · subst hhead
      rw [if_pos rfl, count_cons, count_cons]
      split <;> rfl
    · rw [if_neg hhead, count_cons, count_cons, ih]
      by_cases h : other = head
      · have hne : other ≠ tag := fun heq => hhead (h ▸ heq)
        simp [h, hhead]
      · simp [h]

/-- A tally of the objects before one becomes a tally of those up to it. -/
theorem Tally.count_bump_take {tally : Tally} {objects : List Object} {index : Nat}
    {object : Object}
    (hcounts : ∀ tag, tally.count tag = (objects.take index).countP (·.tag = tag))
    (hobject : objects[index]? = some object) (tag : Tag) :
    (tally.bump object.tag).count tag = (objects.take (index + 1)).countP (·.tag = tag) := by
  rw [count_bump, hcounts, List.take_add_one, hobject, List.countP_append]
  by_cases h : tag = object.tag
  · simp [h]
  · have hne : object.tag ≠ tag := fun heq => h heq.symm
    simp [h, hne]

/-- The children that describe the objects from `index` on, with their positions, in the order of
the objects. -/
def hits (tree : LayoutTree) (node : Node) (objects : List Object) (index : Nat) :
    List (Nat × Node) :=
  (List.range' index (objects.length - index)).filterMap (tree.describingAt? node objects)

theorem hits_of_lt {tree : LayoutTree} {node : Node} {objects : List Object} {index : Nat}
    (h : index < objects.length) :
    tree.hits node objects index =
      (tree.describingAt? node objects index).toList ++ tree.hits node objects (index + 1) := by
  have hlen : objects.length - index = objects.length - (index + 1) + 1 := by omega
  unfold hits
  rw [hlen, List.range'_succ, List.filterMap_cons]
  cases tree.describingAt? node objects index <;> rfl

/-- Whether the object at `index` lets the loop go on, apart from the order. -/
def Passes (tree : LayoutTree) (node : Node) (objects : List Object) (index : Nat) : Prop :=
  match tree.describingAt? node objects index with
  | none => node.allowUnspecified = true
  | some (_, child) => child.requirement ≠ .forbidden ∧
    ∀ object, objects[index]? = some object → tree.checkContent child object = .ok ()

theorem checkFrom_cons_of_none {tree : LayoutTree} {node : Node} {progress : Progress}
    {object : Object} {rest : List Object}
    (h : tree.describing? node object.tag (progress.tally.count object.tag) = none) :
    tree.checkFrom node progress (object :: rest) = .ok () ↔
      node.allowUnspecified = true ∧
      tree.checkFrom node { progress with tally := progress.tally.bump object.tag } rest =
        .ok () := by
  by_cases hallow : node.allowUnspecified = true <;> simp [checkFrom, advance, h, hallow]

/-- What is known after an object that a child describes. -/
def Progress.hit (progress : Progress) (order : SiblingOrder) (tag : Tag) (position : Nat)
    (child : Node) : Progress where
  tally := progress.tally.bump tag
  position := if order = .strict then position else progress.position
  required := progress.required + if child.requirement = .required then 1 else 0

theorem checkFrom_cons_of_some {tree : LayoutTree} {node child : Node} {progress : Progress}
    {position : Nat} {object : Object} {rest : List Object}
    (h : tree.describing? node object.tag (progress.tally.count object.tag) =
      some (position, child)) :
    tree.checkFrom node progress (object :: rest) = .ok () ↔
      child.requirement ≠ .forbidden ∧ (node.order = .strict → progress.position ≤ position) ∧
      tree.checkContent child object = .ok () ∧
      tree.checkFrom node (progress.hit node.order object.tag position child) rest = .ok () := by
  have hrequired : (if child.requirement = .required then progress.required + 1
      else progress.required) =
      progress.required + if child.requirement = .required then 1 else 0 := by split <;> rfl
  by_cases hforbidden : child.requirement = .forbidden
  · simp [checkFrom, advance, h, hforbidden]
  cases horder : node.order with
  | strict =>
    by_cases hposition : position < progress.position
    · simp [checkFrom, advance, h, hforbidden, horder, hposition]
    · cases hcontent : tree.checkContent child object <;>
        simp [checkFrom, advance, h, hforbidden, horder, hposition, hcontent, hrequired,
          Progress.hit, Nat.le_of_not_lt hposition]
  | arbitrary =>
    cases hcontent : tree.checkContent child object <;>
      simp [checkFrom, advance, h, hforbidden, horder, hcontent, hrequired, Progress.hit]

/-- The loop succeeds if every object passes, positions never fall where the order matters, and
enough required children come up. -/
theorem checkFrom_eq_ok_iff {tree : LayoutTree} {node : Node} {objects rest : List Object}
    {index : Nat} {progress : Progress} (hrest : objects.drop index = rest)
    (htally : ∀ tag,
      progress.tally.count tag = (objects.take index).countP (·.tag = tag)) :
    tree.checkFrom node progress rest = .ok () ↔
      (∀ i, index ≤ i → i < objects.length → tree.Passes node objects i) ∧
      (node.order = .strict →
        List.IsChain (· ≤ ·) (progress.position :: (tree.hits node objects index).map (·.1))) ∧
      tree.requiredCount node ≤ progress.required +
        (tree.hits node objects index).countP (·.2.requirement = .required) := by
  induction rest generalizing index progress with
  | nil =>
    have hlen : objects.length ≤ index := List.drop_eq_nil_iff.mp hrest
    have hhits : tree.hits node objects index = [] := by simp [hits, hlen]
    have hnone : ∀ i, index ≤ i → ¬ i < objects.length := by omega
    simp only [checkFrom, hhits]
    by_cases hmissing : 0 < tree.requiredCount node - progress.required
    · simp [hmissing]
      omega
    · simp [hmissing]
      refine ⟨fun i hi hlt => absurd hlt (hnone i hi), by omega⟩
  | cons object rest ih =>
    have hlt : index < objects.length := by
      have := congrArg List.length hrest
      rw [List.length_drop, List.length_cons] at this
      omega
    have hcons : objects[index] :: objects.drop (index + 1) = object :: rest :=
      List.drop_eq_getElem_cons hlt ▸ hrest
    obtain ⟨hobject, hdrop⟩ := List.cons.inj hcons
    have hget : objects[index]? = some object := by rw [List.getElem?_eq_getElem hlt, hobject]
    have hbump := Tally.count_bump_take htally hget
    have hat : tree.describingAt? node objects index =
        tree.describing? node object.tag (progress.tally.count object.tag) := by
      rw [describingAt?, occurrenceAt?, hget, htally]
      rfl
    have hsplit : (∀ i, index ≤ i → i < objects.length → tree.Passes node objects i) ↔
        tree.Passes node objects index ∧
          ∀ i, index + 1 ≤ i → i < objects.length → tree.Passes node objects i := by
      refine ⟨fun h => ⟨h index le_rfl hlt, fun i hi => h i (by omega)⟩, fun h i hi hl => ?_⟩
      rcases Nat.eq_or_lt_of_le hi with rfl | hi
      · exact h.1
      · exact h.2 i hi hl
    rw [hsplit, hits_of_lt hlt]
    cases hhit : tree.describing? node object.tag (progress.tally.count object.tag) with
    | none =>
      have hpass : tree.Passes node objects index ↔ node.allowUnspecified = true := by
        rw [Passes, hat, hhit]
      rw [checkFrom_cons_of_none hhit, ih hdrop hbump, hpass, hat, hhit, and_assoc]
      rfl
    | some hit =>
      obtain ⟨position, child⟩ := hit
      have hpass : tree.Passes node objects index ↔ child.requirement ≠ .forbidden ∧
          tree.checkContent child object = .ok () := by
        simp [Passes, hat, hhit, hget]
      rw [checkFrom_cons_of_some hhit, ih hdrop hbump, hpass, hat, hhit]
      have hcount : progress.required + (if child.requirement = .required then 1 else 0) +
          (tree.hits node objects (index + 1)).countP (·.2.requirement = .required) =
          progress.required +
            ((position, child) :: tree.hits node objects (index + 1)).countP
              (·.2.requirement = .required) := by
        rw [List.countP_cons]
        simp only [decide_eq_true_eq]
        omega
      simp only [Progress.hit, Option.toList_some, List.singleton_append, List.map_cons,
        List.isChain_cons_cons, hcount]
      by_cases horder : node.order = .strict
      · simp only [horder, if_true, forall_const]
        tauto
      · simp only [horder, false_implies]
        tauto

/-! ### What the loop finds out -/

theorem checkContent_eq_ok_iff (tree : LayoutTree) (child : Node) (object : Object) :
    tree.checkContent child object = .ok () ↔
      (object.children ≠ [] → child.children ≠ [] →
        tree.checkFrom child .start object.children = .ok ()) := by
  cases object with
  | primitive tag value => simp [checkContent, Object.children]
  | constructed tag children =>
    by_cases hobjects : children = []
    · simp [checkContent, Object.children, hobjects]
    · by_cases hchildren : child.children = [] <;>
        simp [checkContent, Object.children, hobjects, hchildren]

theorem sizeOf_children_le (object : Object) : sizeOf object.children ≤ sizeOf object := by
  cases object with
  | primitive tag value =>
    simp only [Object.children, List.nil.sizeOf_spec, Object.primitive.sizeOf_spec]
    omega
  | constructed tag children =>
    simp only [Object.children, Object.constructed.sizeOf_spec]
    omega

theorem Describes.index_lt {tree : LayoutTree} {node child : Node} {objects : List Object}
    {index position : Nat} (h : tree.Describes node objects index position child) :
    index < objects.length := by
  obtain ⟨_, occurrence, _, _, _, hat⟩ := h
  obtain ⟨object, hobject, _⟩ := Option.map_eq_some_iff.mp hat
  exact (List.getElem?_eq_some_iff.mp hobject).1

section

variable {tree : LayoutTree} (wf : tree.WellFormed) (id : Nat) (objects : List Object)

include wf

theorem passes_iff {index : Nat} :
    tree.Passes (tree.node id) objects index ↔
      ((∃ position child, tree.Describes (tree.node id) objects index position child ∧
        child.requirement ≠ .forbidden) ∨
      ((∀ position child, ¬ tree.Describes (tree.node id) objects index position child) ∧
        (tree.node id).allowUnspecified = true)) ∧
      ∀ position child object, objects[index]? = some object →
        tree.Describes (tree.node id) objects index position child →
        tree.checkContent child object = .ok () := by
  unfold Passes
  cases h : tree.describingAt? (tree.node id) objects index with
  | none =>
    have hnone : ∀ position child,
        ¬ tree.Describes (tree.node id) objects index position child := by
      intro position child hdescribes
      rw [(describingAt?_eq_some_iff wf).mpr hdescribes] at h
      exact Option.some_ne_none _ h
    simp [hnone]
  | some hit =>
    obtain ⟨position, child⟩ := hit
    have hdescribes := (describingAt?_eq_some_iff wf).mp h
    constructor
    · rintro ⟨hallowed, hcontent⟩
      refine ⟨.inl ⟨position, child, hdescribes, hallowed⟩, ?_⟩
      intro other node object hobject hother
      obtain ⟨rfl, rfl⟩ := hdescribes.unique wf hother
      exact hcontent object hobject
    · rintro ⟨hadmitted, hcontent⟩
      refine ⟨?_, fun object hobject => hcontent position child object hobject hdescribes⟩
      rcases hadmitted with ⟨other, node, hother, hallowed⟩ | ⟨hnone, _⟩
      · obtain ⟨rfl, rfl⟩ := hdescribes.unique wf hother
        exact hallowed
      · exact absurd hdescribes (hnone position child)

theorem mem_hits_iff {position : Nat} {child : Node} :
    (position, child) ∈ tree.hits (tree.node id) objects 0 ↔
      ∃ index, tree.Describes (tree.node id) objects index position child := by
  simp only [hits, List.mem_filterMap, describingAt?_eq_some_iff wf]
  constructor
  · rintro ⟨index, _, h⟩
    exact ⟨index, h⟩
  · rintro ⟨index, h⟩
    have := h.index_lt
    exact ⟨index, List.mem_range'_1.mpr (by omega), h⟩

/-- A property of pairs of hits, earlier before later. -/
theorem pairwise_hits_iff {R : Nat → Nat → Prop} :
    ((tree.hits (tree.node id) objects 0).map (·.1)).Pairwise R ↔
      ∀ i j p q a b, i < j → tree.Describes (tree.node id) objects i p a →
        tree.Describes (tree.node id) objects j q b → R p q := by
  rw [List.pairwise_map, hits, List.pairwise_filterMap, List.pairwise_iff_getElem]
  simp only [List.getElem_range', Prod.forall, describingAt?_eq_some_iff wf]
  constructor
  · intro h i j p q a b hij ha hb
    have hi := ha.index_lt
    have hj := hb.index_lt
    exact h i j (by simpa using hi) (by simpa using hj) hij p a (by simpa using ha) q b
      (by simpa using hb)
  · intro h i j hi hj hij p a ha q b hb
    exact h _ _ p q a b (by omega) ha hb

/-- Positions that never fall always rise, since none comes up twice. -/
theorem isChain_hits_iff :
    List.IsChain (· ≤ ·) (0 :: (tree.hits (tree.node id) objects 0).map (·.1)) ↔
      ∀ i j p q a b, i < j → tree.Describes (tree.node id) objects i p a →
        tree.Describes (tree.node id) objects j q b → p < q := by
  rw [List.isChain_iff_pairwise, List.pairwise_cons, pairwise_hits_iff wf]
  constructor
  · intro h i j p q a b hij ha hb
    refine Nat.lt_of_le_of_ne (h.2 i j p q a b hij ha hb) ?_
    rintro rfl
    have := ha.index_unique hb
    omega
  · exact fun h => ⟨fun _ _ => Nat.zero_le _, fun i j p q a b hij ha hb =>
      (h i j p q a b hij ha hb).le⟩

end

/-- The positions of the required children of a node. -/
def requiredPositions (tree : LayoutTree) (node : Node) : List Nat :=
  (node.children.zipIdx.filter fun entry => (tree.node entry.1).requirement = .required).map (·.2)

theorem length_requiredPositions (tree : LayoutTree) (node : Node) :
    (tree.requiredPositions node).length = tree.requiredCount node := by
  have hfst : node.children = node.children.zipIdx.map (·.1) := (List.zipIdx_map_fst ..).symm
  rw [requiredPositions, List.length_map, ← List.countP_eq_length_filter, requiredCount]
  conv_rhs => rw [hfst, List.countP_map]
  rfl

theorem nodup_requiredPositions (tree : LayoutTree) (node : Node) :
    (tree.requiredPositions node).Nodup := by
  have hall : (node.children.zipIdx.map (·.2)).Nodup := by
    rw [List.zipIdx_map_snd]
    exact List.nodup_range'
  exact hall.sublist (List.filter_sublist.map _)

theorem mem_requiredPositions_iff {tree : LayoutTree} {node : Node} {position : Nat} :
    position ∈ tree.requiredPositions node ↔
      ∃ id, node.children[position]? = some id ∧ (tree.node id).requirement = .required := by
  simp [requiredPositions, List.mem_zipIdx_iff_getElem?]

/-- Of two lists without repetition, one within the other, the larger is no longer only if it is
not larger. -/
theorem length_le_length_iff_subset {α : Type} {inner outer : List α} (hinner : inner.Nodup)
    (houter : outer.Nodup) (hsub : inner ⊆ outer) :
    outer.length ≤ inner.length ↔ outer ⊆ inner := by
  constructor
  · intro h
    exact ((hinner.subperm hsub).perm_of_length_le h).symm.subset
  · exact fun h => (houter.subperm h).length_le

section

variable {tree : LayoutTree} (wf : tree.WellFormed) (id : Nat) (objects : List Object)

include wf

/-- Enough required children come up only if all of them do. -/
theorem requiredCount_le_iff :
    tree.requiredCount (tree.node id) ≤
        (tree.hits (tree.node id) objects 0).countP (·.2.requirement = .required) ↔
      ∀ position child, (tree.node id).children[position]? = some child →
        (tree.node child).requirement = .required →
        ∃ index, tree.Describes (tree.node id) objects index position (tree.node child) := by
  let seen := ((tree.hits (tree.node id) objects 0).filter
    fun hit => decide (hit.2.requirement = .required)).map (·.1)
  have hmem : ∀ position, position ∈ seen ↔ ∃ index child,
      tree.Describes (tree.node id) objects index position child ∧
        child.requirement = .required := by
    intro position
    simp only [seen, List.mem_map, List.mem_filter, decide_eq_true_eq, Prod.exists,
      exists_and_right, exists_eq_right, mem_hits_iff wf]
    exact ⟨fun ⟨child, ⟨index, h⟩, hreq⟩ => ⟨index, child, h, hreq⟩,
      fun ⟨index, child, h, hreq⟩ => ⟨child, ⟨index, h⟩, hreq⟩⟩
  have hseen : seen.Nodup := by
    have hall : ((tree.hits (tree.node id) objects 0).map (·.1)).Nodup := by
      rw [List.Nodup, pairwise_hits_iff wf]
      rintro i j p _ a b hij ha hb rfl
      have := ha.index_unique hb
      omega
    exact hall.sublist (List.filter_sublist.map _)
  have hsub : seen ⊆ tree.requiredPositions (tree.node id) := by
    intro position h
    obtain ⟨index, child, ⟨childId, _, hid, rfl, _, _⟩, hreq⟩ := (hmem position).mp h
    exact mem_requiredPositions_iff.mpr ⟨childId, hid, hreq⟩
  have hlength : seen.length =
      (tree.hits (tree.node id) objects 0).countP (·.2.requirement = .required) := by
    rw [List.length_map, List.countP_eq_length_filter]
  rw [← hlength, ← length_requiredPositions,
    length_le_length_iff_subset hseen (nodup_requiredPositions tree _) hsub]
  constructor
  · intro h position childId hchild hreq
    obtain ⟨index, child, hdescribes, _⟩ :=
      (hmem position).mp (h (mem_requiredPositions_iff.mpr ⟨childId, hchild, hreq⟩))
    have ⟨other, _, hother, hnode, _, _⟩ := hdescribes
    obtain rfl : childId = other := Option.some.inj (hchild ▸ hother)
    exact ⟨index, hnode ▸ hdescribes⟩
  · intro h position hposition
    obtain ⟨childId, hchild, hreq⟩ := mem_requiredPositions_iff.mp hposition
    obtain ⟨index, hdescribes⟩ := h position childId hchild hreq
    exact (hmem position).mpr ⟨index, _, hdescribes, hreq⟩

/-- One list of objects passes if it fits the node and the contents of described objects pass. -/
theorem checkFrom_start_eq_ok_iff :
    tree.checkFrom (tree.node id) .start objects = .ok () ↔
      tree.Fits (tree.node id) objects ∧
      ∀ index position child object, objects[index]? = some object →
        tree.Describes (tree.node id) objects index position child →
        tree.checkContent child object = .ok () := by
  have hrest : objects.drop 0 = objects := rfl
  have htally : ∀ tag, Progress.start.tally.count tag =
      (objects.take 0).countP (·.tag = tag) := fun _ => rfl
  rw [checkFrom_eq_ok_iff hrest htally]
  simp only [Progress.start, Nat.zero_le, forall_const, Nat.zero_add, passes_iff wf,
    isChain_hits_iff wf, requiredCount_le_iff wf]
  constructor
  · rintro ⟨hpasses, hordered, hcomplete⟩
    refine ⟨⟨fun index h => (hpasses index h).1, hordered, hcomplete⟩, ?_⟩
    intro index position child object hobject hdescribes
    exact (hpasses index hdescribes.index_lt).2 position child object hobject hdescribes
  · rintro ⟨hfits, hnested⟩
    exact ⟨fun index h => ⟨hfits.admitted index h, hnested index⟩, hfits.ordered, hfits.complete⟩

/-- Matching below a node decides what the node means. -/
theorem checkFrom_start_eq_ok_iff_conforms :
    tree.checkFrom (tree.node id) .start objects = .ok () ↔
      tree.Conforms (tree.node id) objects := by
  induction hsize : sizeOf objects using Nat.strong_induction_on generalizing id objects with
  | _ size ih =>
    -- the content of an object is smaller than the list that holds the object
    have hcontent : ∀ index position child object, objects[index]? = some object →
        tree.Describes (tree.node id) objects index position child →
        (tree.checkFrom child .start object.children = .ok () ↔
          tree.Conforms child object.children) := by
      rintro index position child object hobject ⟨childId, _, _, rfl, _, _⟩
      have hmem : sizeOf object < sizeOf objects :=
        List.sizeOf_lt_of_mem (List.mem_of_getElem? hobject)
      have hchildren := sizeOf_children_le object
      exact ih _ (by omega) childId object.children rfl
    rw [checkFrom_start_eq_ok_iff wf]
    constructor
    · rintro ⟨hfits, hnested⟩
      refine .intro hfits fun index position child object hobject hdescribes hne hchild => ?_
      rw [← hcontent index position child object hobject hdescribes]
      exact (checkContent_eq_ok_iff tree child object).mp
        (hnested index position child object hobject hdescribes) hne hchild
    · rintro ⟨hfits, hnested⟩
      refine ⟨hfits, fun index position child object hobject hdescribes => ?_⟩
      refine (checkContent_eq_ok_iff tree child object).mpr fun hne hchild => ?_
      rw [hcontent index position child object hobject hdescribes]
      exact hnested index position child object hobject hdescribes hne hchild

end

theorem isMatch_verdict_iff {tree : LayoutTree} {objects : List Object} :
    (tree.verdict objects).isMatch = true ↔ tree.check objects = .ok () := by
  unfold verdict
  cases tree.check objects with
  | ok => exact iff_of_true rfl rfl
  | error mismatch => exact iff_of_false Bool.false_ne_true nofun

theorem status_verdict_of_not_isMatch {tree : LayoutTree} {objects : List Object}
    (h : (tree.verdict objects).isMatch = false) :
    (tree.verdict objects).status = .wrongData := by
  unfold verdict at *
  cases hcheck : tree.check objects with
  | ok =>
    rw [hcheck] at h
    exact absurd h nofun
  | error mismatch => rfl

/-- A tree as it is built accepts exactly the data objects that conform to it, and answers all
others with the status word for wrong data. -/
theorem isMatch_verdict_iff_conforms {tree : LayoutTree} (built : Built tree)
    (objects : List Object) :
    ((tree.verdict objects).isMatch = true ↔ tree.Conforms (tree.node 0) objects) ∧
      ((tree.verdict objects).isMatch = false → (tree.verdict objects).status = .wrongData) := by
  refine ⟨?_, status_verdict_of_not_isMatch⟩
  rw [isMatch_verdict_iff]
  exact checkFrom_start_eq_ok_iff_conforms built.wellFormed 0 objects

/-- A tag that may come twice, where the first occurrence has a required and an optional tag in
any order. -/
def twofoldTree : LayoutTree :=
  let outer := (empty.addChild 0 ⟨[0x7D], rfl⟩ .required).2
  let inner := ((outer.setOrder 1 .arbitrary).addChild 1 (.context 1#4) .required).2
  ((inner.addChild 1 (.context 3#4) .optional).2.addChild 0 ⟨[0x7D], rfl⟩ .optional).2

theorem built_twofoldTree : Built twofoldTree :=
  .addChild (.addChild (.addChild (.setOrder (.addChild .empty (by decide) _ _) (by decide) _)
    (by decide) _ _) (by decide) _ _) (by decide) _ _

theorem conforms_twofoldTree :
    twofoldTree.Conforms (twofoldTree.node 0)
        [.constructed ⟨[0x7D], rfl⟩ [.primitive (.context 3#4) [1], .primitive (.context 1#4) []],
          .constructed ⟨[0x7D], rfl⟩ []] ∧
      ¬ twofoldTree.Conforms (twofoldTree.node 0)
        [.constructed ⟨[0x7D], rfl⟩ [], .constructed ⟨[0x7D], rfl⟩ [],
          .constructed ⟨[0x7D], rfl⟩ []] :=
  ⟨(isMatch_verdict_iff_conforms built_twofoldTree _).1.mp (by decide),
    fun h => absurd ((isMatch_verdict_iff_conforms built_twofoldTree _).1.mpr h) (by decide)⟩

end SmartCard.LayoutTree
