import Mathlib.Data.Nat.Find
import Mathlib.Logic.Equiv.Basic
import SmartCard.Proofs.Layout.Passing

/-!
# Objects in each other's place

Where the order of objects matters, no two described objects with different tags can stand in each
other's place. If neither of their tags comes twice, the fault comes up at the next described object
behind the first of the two places, and it is the only one: without the order everything fits.
-/

namespace SmartCard.LayoutTree

/-- The objects with those at `i` and `j` in each other's place. -/
def swapped (objects : List Object) (i j : Nat) : List Object :=
  match objects[i]?, objects[j]? with
  | some a, some b => (objects.set i b).set j a
  | _, _ => objects

section

variable {objects : List Object} {i j : Nat} {a b : Object} (ha : objects[i]? = some a)
  (hb : objects[j]? = some b)

include ha hb

theorem swapped_eq : swapped objects i j = (objects.set i b).set j a := by
  rw [swapped, ha, hb]

theorem getElem?_swapped (k : Nat) :
    (swapped objects i j)[k]? = objects[Equiv.swap i j k]? := by
  have hi := (List.getElem?_eq_some_iff.mp ha).1
  have hj := (List.getElem?_eq_some_iff.mp hb).1
  rw [swapped_eq ha hb, List.getElem?_set, List.getElem?_set, List.length_set]
  by_cases hkj : j = k
  · subst hkj
    simp [hj, ha]
  · by_cases hki : i = k
    · subst hki
      simp [hi, hkj, hb]
    · rw [if_neg hkj, if_neg hki, Equiv.swap_apply_of_ne_of_ne (Ne.symm hki) (Ne.symm hkj)]

theorem perm_swapped : (swapped objects i j).Perm objects := by
  obtain ⟨hi, rfl⟩ := List.getElem?_eq_some_iff.mp ha
  obtain ⟨hj, rfl⟩ := List.getElem?_eq_some_iff.mp hb
  rw [swapped_eq ha hb]
  exact List.set_set_perm hi hj

theorem map_swapped {α : Type} {f : Object → α} (hf : f a = f b) :
    (swapped objects i j).map f = objects.map f := by
  apply List.ext_getElem?
  intro k
  rw [List.getElem?_map, List.getElem?_map, getElem?_swapped ha hb]
  by_cases hki : k = i
  · rw [hki, Equiv.swap_apply_left, ha, hb, Option.map_some, Option.map_some, hf]
  · by_cases hkj : k = j
    · rw [hkj, Equiv.swap_apply_right, ha, hb, Option.map_some, Option.map_some, hf]
    · rw [Equiv.swap_apply_of_ne_of_ne hki hkj]

theorem countP_take_swapped {p : Object → Bool} (hp : p a = p b) (k : Nat) :
    ((swapped objects i j).take k).countP p = (objects.take k).countP p := by
  have hmap : ∀ items : List Object,
      (items.take k).countP p = ((items.map p).take k).countP id := by
    intro items
    rw [← List.map_take, List.countP_map]
    rfl
  rw [hmap, hmap, map_swapped ha hb hp]

/-- What comes before both places stays. -/
theorem take_swapped (hij : i < j) : (swapped objects i j).take i = objects.take i := by
  apply List.ext_getElem?
  intro k
  rw [List.getElem?_take, List.getElem?_take, getElem?_swapped ha hb]
  split
  · rw [Equiv.swap_apply_of_ne_of_ne (by omega) (by omega)]
  · rfl

section

variable (haonce : objects.countP (·.tag = a.tag) = 1)
  (hbonce : objects.countP (·.tag = b.tag) = 1)

include haonce hbonce

/-- Where neither tag comes twice, the objects take their occurrences with them. -/
theorem occurrenceAt?_swapped (k : Nat) :
    occurrenceAt? (swapped objects i j) k = occurrenceAt? objects (Equiv.swap i j k) := by
  have honce : ∀ object : Object, objects.countP (·.tag = object.tag) = 1 →
      (swapped objects i j).countP (·.tag = object.tag) = 1 :=
    fun object h => ((perm_swapped ha hb).countP_eq _).trans h
  have hget := getElem?_swapped ha hb k
  by_cases hki : k = i
  · subst hki
    rw [Equiv.swap_apply_left] at hget ⊢
    rw [occurrenceAt?_of_once (hget.trans hb) (honce b hbonce), occurrenceAt?_of_once hb hbonce]
  by_cases hkj : k = j
  · subst hkj
    rw [Equiv.swap_apply_right] at hget ⊢
    rw [occurrenceAt?_of_once (hget.trans ha) (honce a haonce), occurrenceAt?_of_once ha haonce]
  rw [Equiv.swap_apply_of_ne_of_ne hki hkj] at hget ⊢
  cases hobject : objects[k]? with
  | none => rw [occurrenceAt?, occurrenceAt?, hget, hobject]; rfl
  | some object =>
    have hother : ∀ {index : Nat} {other : Object}, objects[index]? = some other →
        objects.countP (·.tag = other.tag) = 1 → k ≠ index → other.tag ≠ object.tag := by
      intro index other hindex hcount hne htag
      have hat := occurrenceAt?_of_once hobject (htag ▸ hcount)
      rw [← htag] at hat
      exact hne (occurrenceAt?_injective hat (occurrenceAt?_of_once hindex hcount))
    have hp : decide (a.tag = object.tag) = decide (b.tag = object.tag) := by
      simp [hother ha haonce hki, hother hb hbonce hkj]
    rw [occurrenceAt?_of_getElem? (hget.trans hobject), occurrenceAt?_of_getElem? hobject,
      countP_take_swapped ha hb hp]

theorem objectAt?_swapped (occurrence : Occurrence) :
    objectAt? (swapped objects i j) occurrence = objectAt? objects occurrence := by
  ext object
  rw [objectAt?_eq_some_iff, objectAt?_eq_some_iff]
  simp only [getElem?_swapped ha hb, occurrenceAt?_swapped ha hb haonce hbonce]
  exact ((Equiv.swap i j).surjective.exists (p := fun index =>
    objects[index]? = some object ∧ occurrenceAt? objects index = some occurrence)).symm

theorem describes_swapped {tree : LayoutTree} {node child : Node} {k position : Nat} :
    tree.Describes node (swapped objects i j) k position child ↔
      tree.Describes node objects (Equiv.swap i j k) position child := by
  simp only [Describes, occurrenceAt?_swapped ha hb haonce hbonce]

theorem passes_swapped {tree : LayoutTree} {node : Node} {k : Nat}
    (hpasses : tree.Passes node objects (Equiv.swap i j k)) :
    tree.Passes node (swapped objects i j) k := by
  simpa only [Passes, describingAt?, occurrenceAt?_swapped ha hb haonce hbonce,
    getElem?_swapped ha hb] using hpasses

end

end

/-! ### Where the order matters -/

/-- The next index, behind another one, with an object that some child describes. -/
structure DescribedNext (tree : LayoutTree) (node : Node) (objects : List Object)
    (index next : Nat) : Prop where
  behind : index < next
  described : ∃ position child, tree.Describes node objects next position child
  between : ∀ k, index < k → k < next → ∀ position child,
    ¬ tree.Describes node objects k position child

theorem exists_describedNext {tree : LayoutTree} {node child : Node} {objects : List Object}
    {index last position : Nat} (hlt : index < last)
    (hlast : tree.Describes node objects last position child) :
    ∃ next ≤ last, tree.DescribedNext node objects index next := by
  classical
  have hexists : ∃ next, index < next ∧
      ∃ position child, tree.Describes node objects next position child :=
    ⟨last, hlt, position, child, hlast⟩
  refine ⟨Nat.find hexists, Nat.find_min' hexists ⟨hlt, position, child, hlast⟩,
    (Nat.find_spec hexists).1, (Nat.find_spec hexists).2, ?_⟩
  exact fun k hk hnext position child h =>
    Nat.find_min hexists hnext ⟨hk, position, child, h⟩

section

variable {tree : LayoutTree} (wf : tree.WellFormed) {id : Nat} {objects : List Object} {i j : Nat}
  {a b : Object} (hij : i < j) (ha : objects[i]? = some a) (hb : objects[j]? = some b)

include wf hij ha hb

/-- The occurrence that comes to the first place was described behind the one that leaves it. -/
theorem not_rising_swapped (hrising : tree.Rising (tree.node id) objects) (htags : a.tag ≠ b.tag)
    {p q : Nat} {c d : Node} (hc : tree.Describes (tree.node id) objects i p c)
    (hd : tree.Describes (tree.node id) objects j q d) :
    ¬ tree.Rising (tree.node id) (swapped objects i j) := by
  intro hswapped
  have hbefore := take_swapped ha hb hij
  have hfirst : (swapped objects i j)[i]? = some b := by
    rw [getElem?_swapped ha hb, Equiv.swap_apply_left, hb]
  have hsecond : (swapped objects i j)[j]? = some a := by
    rw [getElem?_swapped ha hb, Equiv.swap_apply_right, ha]
  have hati := occurrenceAt?_of_getElem? ha
  have hati' := occurrenceAt?_of_getElem? hfirst
  have hatj := occurrenceAt?_of_getElem? hb
  rw [hbefore] at hati'
  obtain ⟨place, child, hplace⟩ : ∃ place child, tree.describing? (tree.node id) b.tag
      ((objects.take i).countP (·.tag = b.tag)) = some (place, child) := by
    have hfound := (describes_iff_of_occurrenceAt? wf hatj).mp hd
    have hle : (objects.take i).countP (·.tag = b.tag) ≤ (objects.take j).countP (·.tag = b.tag) :=
      (List.take_sublist_take_left hij.le).countP_le
    rcases Nat.lt_or_eq_of_le hle with hlt | heq
    · obtain ⟨place, child, _, hearlier⟩ := exists_describing?_of_lt wf hfound hlt
      exact ⟨place, child, hearlier⟩
    · exact ⟨q, d, heq ▸ hfound⟩
  -- before, this occurrence came somewhere behind the first place
  have habove : p < place := by
    obtain ⟨s, his, _, hs⟩ := exists_occurrenceAt?_of_le hb hij.le
    have hne : i ≠ s := by
      rintro rfl
      rw [hati] at hs
      exact htags (Occurrence.mk.inj (Option.some.inj hs)).1
    exact hrising i s p place c child (by omega) hc
      ((describes_iff_of_occurrenceAt? wf hs).mpr hplace)
  -- now the one that was there does
  have hbelow : place < p := by
    obtain ⟨r, hir, _, hr⟩ := exists_occurrenceAt?_of_le hsecond (show i + 1 ≤ j by omega)
    have hcount : ((swapped objects i j).take (i + 1)).countP (·.tag = a.tag) =
        (objects.take i).countP (·.tag = a.tag) := by
      rw [countP_take_succ hfirst, hbefore]
      simp [htags.symm]
    rw [hcount] at hr
    exact hswapped i r place p child c (by omega)
      ((describes_iff_of_occurrenceAt? wf hati').mpr hplace)
      ((describes_iff_of_occurrenceAt? wf hr).mpr
        ((describes_iff_of_occurrenceAt? wf hati).mp hc))
  omega

/-- The object that comes to the first place puts the next described one out of order. -/
theorem checkFrom_swapped (haonce : objects.countP (·.tag = a.tag) = 1)
    (hbonce : objects.countP (·.tag = b.tag) = 1) (hstrict : (tree.node id).order = .strict)
    (hrising : tree.Rising (tree.node id) objects)
    (hpasses : ∀ k < objects.length, tree.Passes (tree.node id) objects k)
    {next q : Nat} {d : Node} {first : Object}
    (hd : tree.Describes (tree.node id) objects j q d)
    (hnext : tree.DescribedNext (tree.node id) (swapped objects i j) i next) (hle : next ≤ j)
    (hfirst : (swapped objects i j)[next]? = some first) :
    tree.checkFrom (tree.node id) .start (swapped objects i j) =
      .error (.outOfOrder first.tag) := by
  have hdescribes : ∀ {k position child},
      tree.Describes (tree.node id) (swapped objects i j) k position child ↔
        tree.Describes (tree.node id) objects (Equiv.swap i j k) position child :=
    describes_swapped ha hb haonce hbonce
  have hlen : j < objects.length := (List.getElem?_eq_some_iff.mp hb).1
  have hpasses' : ∀ k ≤ j, tree.Passes (tree.node id) (swapped objects i j) k := by
    intro k hk
    refine passes_swapped ha hb haonce hbonce (hpasses _ ?_)
    rw [Equiv.swap_apply_def]
    split_ifs <;> omega
  obtain ⟨hbehind, ⟨p, c, hc⟩, hbetween⟩ := hnext
  have hearlier : tree.Describes (tree.node id) (swapped objects i j) i q d := by
    rw [hdescribes, Equiv.swap_apply_left]
    exact hd
  have hallowed : c.requirement ≠ .forbidden := by
    have hpass := hpasses' next hle
    rw [Passes, (describingAt?_eq_some_iff wf).mpr hc] at hpass
    exact hpass.1
  have hfalls : p < q := by
    refine hrising _ j p q c d ?_ (hdescribes.mp hc) hd
    rw [Equiv.swap_apply_def]
    split_ifs <;> omega
  refine checkFrom_eq_outOfOrder wf hstrict (fun k hk => hpasses' k (by omega)) ?_ hfirst hc
    hallowed hbehind hearlier hfalls
  -- none is described between the two, so up to there only one object is another one
  intro s t p q c d hst ht hs hdt
  have hti : t ≤ i := by
    by_contra hgt
    exact hbetween t (by omega) ht q d hdt
  rw [hdescribes, Equiv.swap_apply_of_ne_of_ne (by omega) (by omega)] at hs
  refine hrising s _ p q c d ?_ hs (hdescribes.mp hdt)
  rw [Equiv.swap_apply_def]
  split_ifs <;> omega

end

/-- Two described objects with different tags do not fit in each other's place where the order of
the root matters. If neither tag comes twice, the next described object behind the first place is
reported, and without the order everything fits. -/
theorem verdict_swapped {tree : LayoutTree} (built : Built tree)
    (hstrict : (tree.node 0).order = .strict) {objects : List Object}
    (hmatch : (tree.verdict objects).isMatch = true) {i j : Nat} (hij : i < j) {a b : Object}
    (ha : objects[i]? = some a) (hb : objects[j]? = some b) (htags : a.tag ≠ b.tag)
    (hadescribed : ∃ position child, tree.Describes (tree.node 0) objects i position child)
    (hbdescribed : ∃ position child, tree.Describes (tree.node 0) objects j position child) :
    (tree.verdict (swapped objects i j)).isMatch = false ∧
    (tree.verdict (swapped objects i j)).status = .wrongData ∧
    (objects.countP (·.tag = a.tag) = 1 → objects.countP (·.tag = b.tag) = 1 →
      (∃ next first, tree.DescribedNext (tree.node 0) (swapped objects i j) i next ∧
        (swapped objects i j)[next]? = some first ∧
        (tree.verdict (swapped objects i j)).diagnostic =
          "tag " ++ first.tag.text ++ " out of order") ∧
      ((tree.setOrder 0 .arbitrary).verdict (swapped objects i j)).isMatch = true) := by
  have wf := built.wellFormed
  obtain ⟨hadmits, hordered⟩ := (isMatch_verdict_iff_admits built objects).mp hmatch
  have hrising := hordered hstrict
  obtain ⟨p, c, hc⟩ := hadescribed
  obtain ⟨q, d, hd⟩ := hbdescribed
  have hrejected : (tree.verdict (swapped objects i j)).isMatch = false := by
    rw [Bool.eq_false_iff]
    intro hswapped
    exact not_rising_swapped wf hij ha hb hrising htags hc hd
      (((isMatch_verdict_iff_admits built _).mp hswapped).2 hstrict)
  refine ⟨hrejected, status_verdict_of_not_isMatch hrejected, fun haonce hbonce => ⟨?_, ?_⟩⟩
  · have hlast : tree.Describes (tree.node 0) (swapped objects i j) j p c := by
      rw [describes_swapped ha hb haonce hbonce, Equiv.swap_apply_right]
      exact hc
    obtain ⟨next, hle, hnext⟩ := exists_describedNext hij hlast
    obtain ⟨position, child, hdescribed⟩ := hnext.described
    have hfirst := List.getElem?_eq_getElem hdescribed.index_lt
    refine ⟨next, _, hnext, hfirst, ?_⟩
    rw [verdict, check, checkFrom_swapped wf hij ha hb haonce hbonce hstrict hrising
      ((admits_iff tree 0 objects).mp hadmits).1 hd hnext hle hfirst]
    rfl
  · rw [isMatch_verdict_setOrder_iff built]
    exact ⟨hadmits.congr (objectAt?_swapped ha hb haonce hbonce),
      fun horder => absurd horder (by decide)⟩

theorem verdict_swapped_lateTree :
    let tree := lateTree.setAllowUnspecified 0 true
    let objects : List Object := [.constructed (.context 1#4) [.primitive (.context 3#4) [1]],
      .primitive (.context 5#4) [], .primitive (.context 2#4) []]
    Built tree ∧ (tree.node 0).order = .strict ∧ (tree.verdict objects).isMatch = true ∧
      (tree.verdict (swapped objects 0 2)).status = .wrongData ∧
      ∃ next first, tree.DescribedNext (tree.node 0) (swapped objects 0 2) 0 next ∧
        (swapped objects 0 2)[next]? = some first ∧
        (tree.verdict (swapped objects 0 2)).diagnostic =
          "tag " ++ first.tag.text ++ " out of order" := by
  intro tree objects
  have built : Built tree := built_lateTree.setAllowUnspecified (by decide) true
  have hdescribes : ∀ index position child,
      tree.describingAt? (tree.node 0) objects index = some (position, child) →
      ∃ position child, tree.Describes (tree.node 0) objects index position child :=
    fun _ position child h => ⟨position, child, (describingAt?_eq_some_iff built.wellFormed).mp h⟩
  have hmatch : (tree.verdict objects).isMatch = true := by decide
  obtain ⟨-, hstatus, hexact⟩ := verdict_swapped built (by decide) hmatch (show 0 < 2 by decide)
    rfl rfl (by decide) (hdescribes 0 _ _ rfl) (hdescribes 2 _ _ rfl)
  exact ⟨built, by decide, hmatch, hstatus, (hexact (by decide) (by decide)).1⟩

end SmartCard.LayoutTree
