import SmartCard.Proofs.Layout.Occurrences

/-!
# Rearrangements

An order that does not matter is one that can be put right: objects fit a node in whatever order
they come if and only if they fit it in the order of its children after a rearrangement. Objects
with one tag stay in their order, since they are told apart by it.
-/

namespace SmartCard.LayoutTree

/-- The same objects in another order, in which those with one tag come as they came. -/
structure Rearranges (objects other : List Object) : Prop where
  perm : objects.Perm other
  kept : ∀ tag, other.filter (·.tag = tag) = objects.filter (·.tag = tag)

theorem Rearranges.symm {objects other : List Object} (h : Rearranges objects other) :
    Rearranges other objects :=
  ⟨h.perm.symm, fun tag => (h.kept tag).symm⟩

theorem Rearranges.objectAt?_eq {objects other : List Object} (h : Rearranges objects other)
    (occurrence : Occurrence) : objectAt? other occurrence = objectAt? objects occurrence := by
  rw [objectAt?, objectAt?, h.kept]

/-! ### Sorting objects by the children that describe them -/

/-- Items sorted by a number. Those that were sorted among themselves stay in their order. -/
theorem mergeSort_stable {α : Type} (key : α → Nat) (items : List α) :
    (items.mergeSort fun a b => key a ≤ key b).Pairwise (fun a b => key a ≤ key b) ∧
    ∀ p : α → Bool, (items.filter p).Pairwise (fun a b => key a ≤ key b) →
      (items.mergeSort fun a b => key a ≤ key b).filter p = items.filter p := by
  let le : α → α → Bool := fun a b => key a ≤ key b
  have htrans : ∀ a b c, le a b = true → le b c = true → le a c = true := by
    simp only [le, decide_eq_true_eq]
    exact fun _ _ _ => Nat.le_trans
  have htotal : ∀ a b, (le a b || le b a) = true := by
    simp only [le, Bool.or_eq_true, decide_eq_true_eq]
    exact fun _ _ => Nat.le_total ..
  constructor
  · exact (List.pairwise_mergeSort htrans htotal items).imp of_decide_eq_true
  · intro p hsorted
    have hpart : (items.filter p).Sublist (items.mergeSort le) :=
      List.sublist_mergeSort htrans htotal (hsorted.imp decide_eq_true) List.filter_sublist
    have hsub : (items.filter p).Sublist ((items.mergeSort le).filter p) := by
      simpa using hpart.filter p
    exact (hsub.eq_of_length ((List.mergeSort_perm items le).filter p).length_eq.symm).symm

section

variable (tree : LayoutTree) (node : Node) (objects : List Object)

/-- The position of the child that describes an object. Objects that no child describes go
behind. -/
def place (index : Nat) : Nat :=
  ((tree.describingAt? node objects index).map (·.1)).getD node.children.length

/-- The objects with the indices that they had, sorted by their places. -/
def sorted : List (Object × Nat) :=
  objects.zipIdx.mergeSort fun a b => tree.place node objects a.2 ≤ tree.place node objects b.2

def arranged : List Object :=
  (tree.sorted node objects).map (·.1)

end

section

variable {tree : LayoutTree} (wf : tree.WellFormed) {id : Nat} {objects : List Object}

include wf

theorem place_le_length (index : Nat) :
    tree.place (tree.node id) objects index ≤ (tree.node id).children.length := by
  unfold place
  cases h : tree.describingAt? (tree.node id) objects index with
  | none => exact Nat.le_refl _
  | some hit =>
    obtain ⟨_, _, hchild, _⟩ := (describingAt?_eq_some_iff wf).mp h
    exact (List.getElem?_eq_some_iff.mp hchild).1.le

/-- Of objects with one tag, those that come earlier have earlier places. -/
theorem place_le_place {i j : Nat} {a b : Object} (hij : i < j) (ha : objects[i]? = some a)
    (hb : objects[j]? = some b) (htag : a.tag = b.tag) :
    tree.place (tree.node id) objects i ≤ tree.place (tree.node id) objects j := by
  have hi := occurrenceAt?_of_getElem? ha
  have hj := occurrenceAt?_of_getElem? hb
  rw [htag] at hi
  have hcount : (objects.take i).countP (·.tag = b.tag) <
      (objects.take j).countP (·.tag = b.tag) := by
    have hle := (List.take_sublist_take_left (l := objects) hij).countP_le
      (p := fun object => decide (object.tag = b.tag))
    rw [countP_take_succ ha, if_pos (decide_eq_true htag)] at hle
    omega
  cases hlater : tree.describingAt? (tree.node id) objects j with
  | none =>
    have hlast : tree.place (tree.node id) objects j = (tree.node id).children.length := by
      rw [place, hlater]
      rfl
    rw [hlast]
    exact place_le_length wf i
  | some hit =>
    rw [describingAt?_of_occurrenceAt? hj] at hlater
    obtain ⟨p, child, hlt, hearlier⟩ := exists_describing?_of_lt wf hlater hcount
    rw [place, place, describingAt?_of_occurrenceAt? hi, describingAt?_of_occurrenceAt? hj, hlater,
      hearlier]
    exact hlt.le

/-- Sorting leaves objects with one tag in their order. -/
theorem filter_sorted (tag : Tag) :
    (tree.sorted (tree.node id) objects).filter (·.1.tag = tag) =
      objects.zipIdx.filter (·.1.tag = tag) := by
  refine (mergeSort_stable (fun entry => tree.place (tree.node id) objects entry.2)
    objects.zipIdx).2 _ ?_
  have hpairs : objects.zipIdx.Pairwise fun a b => a.1.tag = b.1.tag →
      tree.place (tree.node id) objects a.2 ≤ tree.place (tree.node id) objects b.2 := by
    rw [List.pairwise_iff_getElem]
    intro i j hi hj hij htag
    simp only [List.getElem_zipIdx, Nat.zero_add] at htag ⊢
    rw [List.length_zipIdx] at hi hj
    exact place_le_place wf hij (List.getElem?_eq_getElem hi) (List.getElem?_eq_getElem hj) htag
  refine (hpairs.filter _).imp_of_mem fun {a b} ha hb hle => hle ?_
  have htag : a.1.tag = tag := of_decide_eq_true (List.mem_filter.mp ha).2
  have htag' : b.1.tag = tag := of_decide_eq_true (List.mem_filter.mp hb).2
  rw [htag, htag']

theorem rearranges_arranged : Rearranges objects (tree.arranged (tree.node id) objects) := by
  have hobjects : objects.zipIdx.map (·.1) = objects := List.zipIdx_map_fst ..
  constructor
  case perm =>
    have hperm : (tree.arranged (tree.node id) objects).Perm (objects.zipIdx.map (·.1)) :=
      (List.mergeSort_perm ..).map _
    rw [hobjects] at hperm
    exact hperm.symm
  case kept =>
    intro tag
    conv_rhs => rw [← hobjects]
    rw [arranged, List.filter_map, List.filter_map]
    exact congrArg (List.map (·.1)) (filter_sorted wf tag)

/-- Sorting leaves each object the occurrence that it was. -/
theorem occurrenceAt?_arranged {index before : Nat} {object : Object}
    (h : (tree.sorted (tree.node id) objects)[index]? = some (object, before)) :
    occurrenceAt? (tree.arranged (tree.node id) objects) index =
      occurrenceAt? objects before := by
  let hasTag : Object × Nat → Bool := fun entry => entry.1.tag = object.tag
  have hentry : objects.zipIdx[before]? = some (object, before) := by
    have hmem := (List.mergeSort_perm ..).mem_iff.mp (List.mem_of_getElem? h)
    rw [List.getElem?_zipIdx, List.mem_zipIdx_iff_getElem?.mp hmem]
    simp
  have hafter : (tree.arranged (tree.node id) objects)[index]? = some object := by
    rw [arranged, List.getElem?_map, h]
    rfl
  have hbefore : objects[before]? = some object := by
    simpa using congrArg (Option.map Prod.fst) hentry
  -- its place among the objects with its tag tells how many of them come before
  have hcount : ((tree.sorted (tree.node id) objects).take index).countP hasTag =
      (objects.zipIdx.take before).countP hasTag := by
    have hsame := getElem?_filter_countP (p := hasTag) h (decide_eq_true rfl)
    have hother := getElem?_filter_countP (p := hasTag) hentry (decide_eq_true rfl)
    have hnodup : (objects.zipIdx.filter hasTag).Nodup := by
      have hall : objects.zipIdx.Nodup := by
        apply List.Nodup.of_map Prod.snd
        rw [List.zipIdx_map_snd]
        exact List.nodup_range'
      exact hall.filter _
    rw [filter_sorted wf] at hsame
    exact (List.getElem?_inj (List.getElem?_eq_some_iff.mp hsame).1 hnodup).mp
      (hsame.trans hother.symm)
  have hmap : ∀ (entries : List (Object × Nat)) (number : Nat),
      ((entries.map (·.1)).take number).countP (·.tag = object.tag) =
        (entries.take number).countP hasTag := by
    intro entries number
    rw [← List.map_take, List.countP_map]
    rfl
  have hobjects := hmap objects.zipIdx before
  rw [List.zipIdx_map_fst] at hobjects
  rw [occurrenceAt?_of_getElem? hafter, occurrenceAt?_of_getElem? hbefore, arranged, hmap, hcount,
    hobjects]

theorem rising_arranged :
    tree.Rising (tree.node id) (tree.arranged (tree.node id) objects) := by
  intro i j p q a b hij ha hb
  have hplace : ∀ {index position : Nat} {child : Node} {entry : Object × Nat},
      tree.Describes (tree.node id) (tree.arranged (tree.node id) objects) index position child →
      (tree.sorted (tree.node id) objects)[index]? = some entry →
      tree.place (tree.node id) objects entry.2 = position := by
    intro index position child entry hdescribes hentry
    rw [← describingAt?_eq_some_iff wf, describingAt?, occurrenceAt?_arranged wf hentry]
      at hdescribes
    rw [place, describingAt?, hdescribes]
    rfl
  have hlength : (tree.arranged (tree.node id) objects).length =
      (tree.sorted (tree.node id) objects).length := List.length_map ..
  have hi : i < (tree.sorted (tree.node id) objects).length := hlength ▸ ha.index_lt
  have hj : j < (tree.sorted (tree.node id) objects).length := hlength ▸ hb.index_lt
  have hsorted : (tree.sorted (tree.node id) objects).Pairwise fun a b =>
      tree.place (tree.node id) objects a.2 ≤ tree.place (tree.node id) objects b.2 :=
    (mergeSort_stable (fun entry => tree.place (tree.node id) objects entry.2)
      objects.zipIdx).1
  have hle : p ≤ q := by
    rw [← hplace ha (List.getElem?_eq_getElem hi), ← hplace hb (List.getElem?_eq_getElem hj)]
    exact List.pairwise_iff_getElem.mp hsorted i j hi hj hij
  -- one child does not describe two objects
  refine Nat.lt_of_le_of_ne hle ?_
  rintro rfl
  have := ha.index_unique hb
  omega

end

/-! ### Verdicts in either order -/

/-- A tree whose root leaves the order open accepts the objects that can be rearranged so that the
same tree with the order of its root accepts them. -/
theorem isMatch_arbitrary_iff_rearranges {tree : LayoutTree} (built : Built tree)
    (objects : List Object) :
    (((tree.setOrder 0 .arbitrary).verdict objects).isMatch = true ↔
      ∃ other, Rearranges objects other ∧
        ((tree.setOrder 0 .strict).verdict other).isMatch = true) ∧
    (∀ other, Rearranges objects other →
      ((tree.setOrder 0 .arbitrary).verdict other).isMatch =
        ((tree.setOrder 0 .arbitrary).verdict objects).isMatch) ∧
    (((tree.setOrder 0 .strict).verdict objects).isMatch = true →
      ((tree.setOrder 0 .arbitrary).verdict objects).isMatch = true) := by
  have hopen : ∀ objects, ((tree.setOrder 0 .arbitrary).verdict objects).isMatch = true ↔
      tree.Admits (tree.node 0) objects := by
    intro objects
    rw [isMatch_verdict_setOrder_iff built]
    exact and_iff_left nofun
  have hstrict : ∀ objects, ((tree.setOrder 0 .strict).verdict objects).isMatch = true ↔
      tree.Admits (tree.node 0) objects ∧ tree.Rising (tree.node 0) objects := by
    intro objects
    rw [isMatch_verdict_setOrder_iff built]
    simp
  refine ⟨?_, ?_, ?_⟩
  · rw [hopen]
    constructor
    · intro hadmits
      have hrearranges : Rearranges objects (tree.arranged (tree.node 0) objects) :=
        rearranges_arranged built.wellFormed
      exact ⟨_, hrearranges, (hstrict _).mpr
        ⟨hadmits.congr hrearranges.objectAt?_eq, rising_arranged built.wellFormed⟩⟩
    · rintro ⟨other, hrearranges, hmatch⟩
      exact ((hstrict other).mp hmatch).1.congr hrearranges.symm.objectAt?_eq
  · intro other hrearranges
    rw [Bool.eq_iff_iff, hopen, hopen]
    exact ⟨fun h => h.congr hrearranges.symm.objectAt?_eq,
      fun h => h.congr hrearranges.objectAt?_eq⟩
  · intro hmatch
    exact (hopen objects).mpr ((hstrict objects).mp hmatch).1

theorem rearranges_lateTree :
    let objects := [.primitive (.context 2#4) [],
      .constructed (.context 1#4) [.primitive (.context 3#4) [1]]]
    Built lateTree ∧ ((lateTree.setOrder 0 .strict).verdict objects).isMatch = false ∧
      (∃ other, Rearranges objects other ∧
        ((lateTree.setOrder 0 .strict).verdict other).isMatch = true) ∧
      ∀ other, Rearranges objects other →
        ((lateTree.setOrder 0 .arbitrary).verdict other).isMatch = true := by
  intro objects
  have hopen : ((lateTree.setOrder 0 .arbitrary).verdict objects).isMatch = true := by decide
  have ⟨hiff, hinvariant, _⟩ := isMatch_arbitrary_iff_rearranges built_lateTree objects
  exact ⟨built_lateTree, by decide, hiff.mp hopen,
    fun other hother => (hinvariant other hother).trans hopen⟩

end SmartCard.LayoutTree
