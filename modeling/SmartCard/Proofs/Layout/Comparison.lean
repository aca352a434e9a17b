import Mathlib.Logic.Relation
import SmartCard.Proofs.Layout.Passing

/-!
# Comparisons

Matching compares nodes with what objects hold, one after the other, and stops at the first fault.
`Compares` writes these comparisons down as the recursion makes them. Each of them is one that the
descriptions lead to, none is made twice, and without a fault none is left out.
-/

namespace SmartCard.LayoutTree

/-! ### The recursion with its comparisons -/

/-- A node with the content of the object that it describes. -/
structure Comparison where
  id : Nat
  content : List Object

/-- The next object of a list is left to `child`, one of the children of the node `id`. -/
structure Takes (tree : LayoutTree) (id : Nat) (progress : Progress) (object : Object)
    (child : Nat) (later : Progress) : Prop where
  mem : child ∈ (tree.node id).children
  advance : tree.advance (tree.node id) progress object.tag = .ok (later, some (tree.node child))

/-- Matching the remaining objects of a list against the children of the node `id` makes
`comparisons`, each before those inside, and comes to `result`. The cases are those that `checkFrom`
and `checkContent` tell apart. -/
inductive Compares (tree : LayoutTree) :
    (id : Nat) → Progress → List Object → List Comparison → Except Mismatch Unit → Prop
  | complete {id : Nat} {progress : Progress}
      (hrequired : tree.requiredCount (tree.node id) ≤ progress.required) :
      Compares tree id progress [] [] (.ok ())
  | missing {id : Nat} {progress : Progress}
      (hrequired : progress.required < tree.requiredCount (tree.node id)) :
      Compares tree id progress [] []
        (.error (.missing (tree.requiredCount (tree.node id) - progress.required)))
  | refused {id : Nat} {progress : Progress} {object : Object} {rest : List Object}
      {mismatch : Mismatch}
      (hadvance : tree.advance (tree.node id) progress object.tag = .error mismatch) :
      Compares tree id progress (object :: rest) [] (.error mismatch)
  | unspecified {id : Nat} {progress later : Progress} {object : Object} {rest : List Object}
      {comparisons : List Comparison} {result : Except Mismatch Unit}
      (hadvance : tree.advance (tree.node id) progress object.tag = .ok (later, none))
      (hrest : Compares tree id later rest comparisons result) :
      Compares tree id progress (object :: rest) comparisons result
  | closed {id child : Nat} {progress later : Progress} {object : Object} {rest : List Object}
      {comparisons : List Comparison} {result : Except Mismatch Unit}
      (htakes : tree.Takes id progress object child later)
      (hclosed : object.children = [] ∨ (tree.node child).children = [])
      (hrest : Compares tree id later rest comparisons result) :
      Compares tree id progress (object :: rest) (⟨child, object.children⟩ :: comparisons) result
  | failed {id child : Nat} {progress later : Progress} {object : Object} {rest : List Object}
      {below : List Comparison} {mismatch : Mismatch}
      (htakes : tree.Takes id progress object child later)
      (hcontent : object.children ≠ []) (hchildren : (tree.node child).children ≠ [])
      (hbelow : Compares tree child .start object.children below (.error mismatch)) :
      Compares tree id progress (object :: rest) (⟨child, object.children⟩ :: below)
        (.error mismatch)
  | opened {id child : Nat} {progress later : Progress} {object : Object} {rest : List Object}
      {below comparisons : List Comparison} {result : Except Mismatch Unit}
      (htakes : tree.Takes id progress object child later)
      (hcontent : object.children ≠ []) (hchildren : (tree.node child).children ≠ [])
      (hbelow : Compares tree child .start object.children below (.ok ()))
      (hrest : Compares tree id later rest comparisons result) :
      Compares tree id progress (object :: rest)
        (⟨child, object.children⟩ :: (below ++ comparisons)) result

section

variable {tree : LayoutTree} {id child : Nat} {progress later : Progress} {object : Object}
  {rest : List Object} {comparisons : List Comparison} {result : Except Mismatch Unit}

theorem checkContent_of_ne_nil {node : Node} (hcontent : object.children ≠ [])
    (hchildren : node.children ≠ []) :
    tree.checkContent node object = tree.checkFrom node .start object.children := by
  cases object with
  | primitive => exact absurd rfl hcontent
  | constructed tag children =>
    have hne : children ≠ [] := hcontent
    simp [checkContent, Object.children, hne, hchildren]

/-- The recursion that is written down is the one that matching is. -/
theorem Compares.checkFrom_eq {objects : List Object}
    (h : tree.Compares id progress objects comparisons result) :
    tree.checkFrom (tree.node id) progress objects = result := by
  induction h with
  | complete hrequired =>
    rw [checkFrom]
    exact if_neg (by omega)
  | missing hrequired =>
    rw [checkFrom]
    exact if_pos (by omega)
  | refused hadvance => rw [checkFrom, hadvance]
  | unspecified hadvance _ ih =>
    rw [checkFrom, hadvance]
    exact ih
  | @closed id child _ _ object _ _ _ htakes hclosed _ ih =>
    have hcontent : tree.checkContent (tree.node child) object = .ok () := by
      rw [checkContent_eq_ok_iff]
      intro hcontent hchildren
      exact absurd hclosed (not_or.mpr ⟨hcontent, hchildren⟩)
    rw [checkFrom, htakes.advance]
    simp only [hcontent, ih]
  | failed htakes hcontent hchildren _ ih =>
    rw [checkFrom, htakes.advance]
    simp only [checkContent_of_ne_nil hcontent hchildren, ih]
  | opened htakes hcontent hchildren _ _ ihbelow ihrest =>
    rw [checkFrom, htakes.advance]
    simp only [checkContent_of_ne_nil hcontent hchildren, ihbelow, ihrest]

theorem found_of_advance {node : Node} {tag : Tag} {found : Option Node}
    (h : tree.advance node progress tag = .ok (later, found)) :
    later.tally = progress.tally.bump tag ∧
      (tree.describing? node tag (progress.tally.count tag)).map (·.2) = found := by
  cases hfound : tree.describing? node tag (progress.tally.count tag) with
  | none =>
    simp only [advance, hfound] at h
    split at h
    · cases h
      exact ⟨rfl, rfl⟩
    · cases h
  | some hit =>
    rw [advance_of_some hfound] at h
    split at h
    · cases h
    · split at h
      · cases h
      · cases h
        exact ⟨rfl, rfl⟩

/-- Matching comes to an end, whatever the objects are. -/
theorem exists_compares (wf : tree.WellFormed) (id : Nat) (progress : Progress)
    (objects : List Object) :
    ∃ comparisons result, tree.Compares id progress objects comparisons result := by
  -- the recursion is on the rest of the list and on what its first object holds
  induction hsize : sizeOf objects using Nat.strong_induction_on
    generalizing id progress objects with
  | _ size ih =>
    cases objects with
    | nil =>
      by_cases hrequired : tree.requiredCount (tree.node id) ≤ progress.required
      · exact ⟨_, _, .complete hrequired⟩
      · exact ⟨_, _, .missing (by omega)⟩
    | cons object rest =>
      have hcontent := sizeOf_children_le object
      rw [List.cons.sizeOf_spec] at hsize
      have hrest := fun later => ih (sizeOf rest) (by omega) id later rest rfl
      have hbelow := fun child =>
        ih (sizeOf object.children) (by omega) child .start object.children rfl
      rcases hadvance : tree.advance (tree.node id) progress object.tag with
        mismatch | ⟨later, _ | node⟩
      · exact ⟨_, _, .refused hadvance⟩
      · obtain ⟨_, _, hrest⟩ := hrest later
        exact ⟨_, _, .unspecified hadvance hrest⟩
      · obtain ⟨⟨position, _⟩, hfound, rfl⟩ :=
          Option.map_eq_some_iff.mp (found_of_advance hadvance).2
        obtain ⟨child, hchild, rfl, _⟩ := (describing?_eq_some_iff wf).mp hfound
        have htakes : tree.Takes id progress object child later :=
          ⟨List.mem_of_getElem? hchild, hadvance⟩
        obtain ⟨_, _, hrest⟩ := hrest later
        by_cases hclosed : object.children = [] ∨ (tree.node child).children = []
        · exact ⟨_, _, .closed htakes hclosed hrest⟩
        · obtain ⟨hcontent, hchildren⟩ := not_or.mp hclosed
          obtain ⟨below, outcome, hbelow⟩ := hbelow child
          cases outcome with
          | error mismatch => exact ⟨_, _, .failed htakes hcontent hchildren hbelow⟩
          | ok => exact ⟨_, _, .opened htakes hcontent hchildren hbelow hrest⟩

end

/-! ### Where the recursion is -/

/-- What is known and what is to come before the object at `index`. -/
structure Halfway (content : List Object) (index : Nat) (progress : Progress)
    (rest : List Object) : Prop where
  drop : content.drop index = rest
  counts : ∀ tag, progress.tally.count tag = (content.take index).countP (·.tag = tag)

theorem halfway_start (content : List Object) : Halfway content 0 .start content :=
  ⟨rfl, fun _ => rfl⟩

section

variable {tree : LayoutTree} {id child : Nat} {progress later : Progress} {object : Object}
  {rest content : List Object} {index : Nat}

theorem Halfway.getElem? (h : Halfway content index progress (object :: rest)) :
    content[index]? = some object := by
  have hhead := congrArg List.head? h.drop
  rwa [List.head?_drop] at hhead

theorem Halfway.next (h : Halfway content index progress (object :: rest)) {node : Node}
    {found : Option Node}
    (hadvance : tree.advance node progress object.tag = .ok (later, found)) :
    Halfway content (index + 1) later rest where
  drop := by rw [← List.drop_drop, h.drop, List.drop_one, List.tail_cons]
  counts := by
    rw [(found_of_advance hadvance).1]
    exact Tally.count_bump_take h.counts h.getElem?

variable (wf : tree.WellFormed)

include wf

theorem Halfway.describing?_iff (h : Halfway content index progress (object :: rest))
    {position : Nat} {node : Node} :
    tree.describing? (tree.node id) object.tag (progress.tally.count object.tag) =
        some (position, node) ↔
      tree.Describes (tree.node id) content index position node := by
  rw [h.counts, describes_iff_of_occurrenceAt? wf (occurrenceAt?_of_getElem? h.getElem?)]

theorem Halfway.describes (h : Halfway content index progress (object :: rest))
    (htakes : tree.Takes id progress object child later) :
    ∃ position, (tree.node id).children[position]? = some child ∧
      tree.Describes (tree.node id) content index position (tree.node child) := by
  obtain ⟨⟨place, node⟩, hfound, hnode⟩ :=
    Option.map_eq_some_iff.mp (found_of_advance htakes.advance).2
  obtain ⟨_, _, _, hoccurrence⟩ := (describing?_eq_some_iff wf).mp hfound
  obtain ⟨position, hchild⟩ := List.getElem?_of_mem htakes.mem
  refine ⟨position, hchild, ?_⟩
  rw [← h.describing?_iff wf, describing?_eq_some_iff wf]
  exact ⟨child, hchild, rfl, hnode ▸ hoccurrence⟩

theorem Halfway.meets {objects : List Object}
    (h : Halfway content index progress (object :: rest))
    (htakes : tree.Takes id progress object child later) (hmeets : tree.Meets objects id content) :
    tree.Meets objects child object.children := by
  obtain ⟨position, hchild, hdescribes⟩ := h.describes wf htakes
  exact .child hmeets hchild hdescribes h.getElem?

theorem Compares.meets {objects : List Object} {comparisons : List Comparison}
    {result : Except Mismatch Unit} (h : tree.Compares id progress rest comparisons result)
    (halfway : Halfway content index progress rest) (hmeets : tree.Meets objects id content) :
    ∀ c ∈ comparisons, tree.Meets objects c.id c.content := by
  induction h generalizing content index with
  | complete | missing | refused => exact List.forall_mem_nil _
  | unspecified hadvance _ ih => exact ih (halfway.next hadvance) hmeets
  | closed htakes _ _ ih =>
    rw [List.forall_mem_cons]
    exact ⟨halfway.meets wf htakes hmeets, ih (halfway.next htakes.advance) hmeets⟩
  | failed htakes _ _ _ ih =>
    have hbelow := halfway.meets wf htakes hmeets
    rw [List.forall_mem_cons]
    exact ⟨hbelow, ih (halfway_start _) hbelow⟩
  | opened htakes _ _ _ _ ihbelow ihrest =>
    have hbelow := halfway.meets wf htakes hmeets
    rw [List.forall_mem_cons, List.forall_mem_append]
    exact ⟨hbelow, ihbelow (halfway_start _) hbelow, ihrest (halfway.next htakes.advance) hmeets⟩

end

/-! ### No node twice -/

/-- The node `ancestor` is `id` or lies on the way from it to the root. -/
def Beneath (tree : LayoutTree) (id ancestor : Nat) : Prop :=
  Relation.ReflTransGen (fun id parent => (tree.node id).parent = some parent) id ancestor

/-- The node lies below a child that describes the object at `index` or a later one. -/
def StemsFrom (tree : LayoutTree) (id : Nat) (content : List Object) (index node : Nat) : Prop :=
  ∃ place position child, index ≤ place ∧ (tree.node id).children[position]? = some child ∧
    tree.Describes (tree.node id) content place position (tree.node child) ∧
    tree.Beneath node child

theorem StemsFrom.mono {tree : LayoutTree} {id : Nat} {content : List Object}
    {index later node : Nat} (h : tree.StemsFrom id content later node) (hle : index ≤ later) :
    tree.StemsFrom id content index node := by
  obtain ⟨place, position, child, hplace, hrest⟩ := h
  exact ⟨place, position, child, hle.trans hplace, hrest⟩

theorem StemsFrom.beneath {tree : LayoutTree} (linked : tree.Linked) {id index node : Nat}
    {content : List Object} (h : tree.StemsFrom id content index node) :
    tree.Beneath node id := by
  obtain ⟨_, _, child, _, hchild, _, hbeneath⟩ := h
  exact hbeneath.tail ((linked.child_iff child id).mp (List.mem_of_getElem? hchild))

theorem Halfway.stemsFrom {tree : LayoutTree} (wf : tree.WellFormed) {id child node index : Nat}
    {progress later : Progress} {object : Object} {rest content : List Object}
    (h : Halfway content index progress (object :: rest))
    (htakes : tree.Takes id progress object child later) (hbeneath : tree.Beneath node child) :
    tree.StemsFrom id content index node := by
  obtain ⟨position, hchild, hdescribes⟩ := h.describes wf htakes
  exact ⟨index, position, child, Nat.le_refl index, hchild, hdescribes, hbeneath⟩

section

variable {tree : LayoutTree} (wf : tree.WellFormed) (linked : tree.Linked)

include wf linked

theorem Beneath.le {id ancestor : Nat} (h : tree.Beneath id ancestor) : ancestor ≤ id := by
  induction h with
  | refl => exact Nat.le_refl _
  | tail _ hparent ih =>
    have := (wf.bounds _ _ ((linked.child_iff _ _).mpr hparent)).1
    omega

/-- What lies below one child of a node does not lie below another. -/
theorem Beneath.unique {id a b node : Nat} (ha : a ∈ (tree.node id).children)
    (hb : b ∈ (tree.node id).children) (hnode : tree.Beneath node a)
    (hnode' : tree.Beneath node b) : a = b := by
  -- a child that lies below another one has their parent below it too
  have hsame : ∀ {a b}, a ∈ (tree.node id).children → b ∈ (tree.node id).children →
      tree.Beneath a b → a = b := by
    intro a b ha hb hab
    rcases Relation.ReflTransGen.cases_head hab with rfl | ⟨parent, hparent, habove⟩
    · rfl
    · rw [(linked.child_iff a id).mp ha, Option.some.injEq] at hparent
      subst hparent
      have := Beneath.le wf linked habove
      have := (wf.bounds id b hb).1
      omega
  have hfunctional : Relator.RightUnique fun id parent => (tree.node id).parent = some parent :=
    fun _ _ _ h h' => Option.some.inj (h.symm.trans h')
  rcases Relation.ReflTransGen.total_of_right_unique hfunctional hnode hnode' with h | h
  · exact hsame ha hb h
  · exact (hsame hb ha h).symm

theorem StemsFrom.lt {id node index : Nat} {content : List Object}
    (h : tree.StemsFrom id content index node) : id < node := by
  obtain ⟨_, _, child, _, hchild, _, hbeneath⟩ := h
  have := (wf.bounds id child (List.mem_of_getElem? hchild)).1
  have := hbeneath.le wf linked
  omega

variable {id child index : Nat} {progress later : Progress} {object : Object}
  {rest content : List Object}

/-- Nothing below the child that the next object is left to is come to again behind it. -/
theorem Halfway.not_stemsFrom_succ (h : Halfway content index progress (object :: rest))
    (htakes : tree.Takes id progress object child later) {node : Nat}
    (hbeneath : tree.Beneath node child) : ¬ tree.StemsFrom id content (index + 1) node := by
  obtain ⟨position, hchild, hdescribes⟩ := h.describes wf htakes
  rintro ⟨place, position', child', hplace, hchild', hdescribes', hbeneath'⟩
  obtain rfl := Beneath.unique wf linked htakes.mem (List.mem_of_getElem? hchild') hbeneath
    hbeneath'
  obtain rfl := wf.position_unique hchild hchild' rfl
  have := hdescribes.index_unique hdescribes'
  omega

variable {comparisons : List Comparison} {result : Except Mismatch Unit}

theorem Compares.stemsFrom (h : tree.Compares id progress rest comparisons result)
    (halfway : Halfway content index progress rest) :
    ∀ c ∈ comparisons, tree.StemsFrom id content index c.id := by
  induction h generalizing content index with
  | complete | missing | refused => exact List.forall_mem_nil _
  | unspecified hadvance _ ih =>
    exact fun c hc => (ih (halfway.next hadvance) c hc).mono (Nat.le_succ index)
  | closed htakes _ _ ih =>
    rw [List.forall_mem_cons]
    refine ⟨halfway.stemsFrom wf htakes .refl, fun c hc => ?_⟩
    exact (ih (halfway.next htakes.advance) c hc).mono (Nat.le_succ index)
  | failed htakes _ _ _ ih =>
    rw [List.forall_mem_cons]
    refine ⟨halfway.stemsFrom wf htakes .refl, fun c hc => ?_⟩
    exact halfway.stemsFrom wf htakes ((ih (halfway_start _) c hc).beneath linked)
  | opened htakes _ _ _ _ ihbelow ihrest =>
    rw [List.forall_mem_cons, List.forall_mem_append]
    refine ⟨halfway.stemsFrom wf htakes .refl, fun c hc => ?_, fun c hc => ?_⟩
    · exact halfway.stemsFrom wf htakes ((ihbelow (halfway_start _) c hc).beneath linked)
    · exact (ihrest (halfway.next htakes.advance) c hc).mono (Nat.le_succ index)

theorem Compares.nodup (h : tree.Compares id progress rest comparisons result)
    (halfway : Halfway content index progress rest) : (comparisons.map (·.id)).Nodup := by
  induction h generalizing content index with
  | complete | missing | refused => exact List.nodup_nil
  | unspecified hadvance _ ih => exact ih (halfway.next hadvance)
  | closed htakes _ hrest ih =>
    have hnext := halfway.next htakes.advance
    have hbehind := hrest.stemsFrom wf linked hnext
    simp only [List.map_cons, List.nodup_cons, List.mem_map]
    refine ⟨?_, ih hnext⟩
    rintro ⟨c, hc, rfl⟩
    exact halfway.not_stemsFrom_succ wf linked htakes .refl (hbehind c hc)
  | failed htakes _ _ hbelow ih =>
    have hinside := hbelow.stemsFrom wf linked (halfway_start _)
    simp only [List.map_cons, List.nodup_cons, List.mem_map]
    refine ⟨?_, ih (halfway_start _)⟩
    rintro ⟨c, hc, rfl⟩
    exact Nat.lt_irrefl _ ((hinside c hc).lt wf linked)
  | opened htakes _ _ hbelow hrest ihbelow ihrest =>
    have hnext := halfway.next htakes.advance
    have hinside := hbelow.stemsFrom wf linked (halfway_start _)
    have hbehind := hrest.stemsFrom wf linked hnext
    simp only [List.map_cons, List.nodup_cons, List.map_append, List.mem_append, List.mem_map,
      List.nodup_append']
    refine ⟨?_, ihbelow (halfway_start _), ihrest hnext, ?_⟩
    · rintro (⟨c, hc, rfl⟩ | ⟨c, hc, rfl⟩)
      · exact Nat.lt_irrefl _ ((hinside c hc).lt wf linked)
      · exact halfway.not_stemsFrom_succ wf linked htakes .refl (hbehind c hc)
    · intro node hnode hnode'
      obtain ⟨c, hc, rfl⟩ := List.mem_map.mp hnode
      obtain ⟨d, hd, hid⟩ := List.mem_map.mp hnode'
      exact halfway.not_stemsFrom_succ wf linked htakes ((hinside c hc).beneath linked)
        (hid ▸ hbehind d hd)

end

/-! ### Nothing left out -/

/-- Where there is content to compare with children of the node, this was done to the end, and is a
part of `comparisons`. -/
def Finished (tree : LayoutTree) (comparisons : List Comparison) (id : Nat)
    (content : List Object) : Prop :=
  content ≠ [] → (tree.node id).children ≠ [] →
    ∃ below, tree.Compares id .start content below (.ok ()) ∧ below ⊆ comparisons

theorem Finished.mono {tree : LayoutTree} {comparisons more : List Comparison} {id : Nat}
    {content : List Object} (h : tree.Finished comparisons id content)
    (hsub : comparisons ⊆ more) : tree.Finished more id content := by
  intro hcontent hchildren
  obtain ⟨below, hbelow, hbelowSub⟩ := h hcontent hchildren
  exact ⟨below, hbelow, List.Subset.trans hbelowSub hsub⟩

section

variable {tree : LayoutTree} (wf : tree.WellFormed)

include wf

theorem Halfway.eq_of_takes {id child taken index position : Nat} {progress later : Progress}
    {object : Object} {rest content : List Object}
    (h : Halfway content index progress (object :: rest))
    (htakes : tree.Takes id progress object taken later)
    (hchild : (tree.node id).children[position]? = some child)
    (hdescribes : tree.Describes (tree.node id) content index position (tree.node child)) :
    taken = child := by
  obtain ⟨place, htaken, hdescribes'⟩ := h.describes wf htakes
  obtain rfl := (hdescribes'.unique wf hdescribes).1
  exact Option.some.inj (htaken.symm.trans hchild)

/-- Without a fault, a list is gone through to its end, and so is what its objects hold. -/
theorem Compares.finished {id index place position child : Nat} {progress : Progress}
    {content rest : List Object} {comparisons : List Comparison} {object : Object}
    {result : Except Mismatch Unit} (h : tree.Compares id progress rest comparisons result)
    (hresult : result = .ok ()) (halfway : Halfway content index progress rest)
    (hplace : index ≤ place) (hobject : content[place]? = some object)
    (hchild : (tree.node id).children[position]? = some child)
    (hdescribes : tree.Describes (tree.node id) content place position (tree.node child)) :
    ⟨child, object.children⟩ ∈ comparisons ∧
      tree.Finished comparisons child object.children := by
  induction h generalizing index with
  | complete =>
    have := List.drop_eq_nil_iff.mp halfway.drop
    have := (List.getElem?_eq_some_iff.mp hobject).1
    omega
  | missing | refused | failed => cases hresult
  | unspecified hadvance _ ih =>
    rcases Nat.eq_or_lt_of_le hplace with rfl | hlt
    · have hnone := (found_of_advance hadvance).2
      rw [(halfway.describing?_iff wf).mpr hdescribes] at hnone
      cases hnone
    · exact ih hresult (halfway.next hadvance) hlt hchild hdescribes
  | closed htakes hclosed _ ih =>
    rcases Nat.eq_or_lt_of_le hplace with rfl | hlt
    · obtain rfl := halfway.eq_of_takes wf htakes hchild hdescribes
      obtain rfl := Option.some.inj (halfway.getElem?.symm.trans hobject)
      refine ⟨List.mem_cons_self, fun hcontent hchildren => ?_⟩
      exact absurd hclosed (not_or.mpr ⟨hcontent, hchildren⟩)
    · obtain ⟨hmem, hfinished⟩ := ih hresult (halfway.next htakes.advance) hlt hchild hdescribes
      exact ⟨List.mem_cons_of_mem _ hmem, hfinished.mono (List.subset_cons_self ..)⟩
  | opened htakes _ _ hhere _ _ ih =>
    rcases Nat.eq_or_lt_of_le hplace with rfl | hlt
    · obtain rfl := halfway.eq_of_takes wf htakes hchild hdescribes
      obtain rfl := Option.some.inj (halfway.getElem?.symm.trans hobject)
      refine ⟨List.mem_cons_self, fun _ _ => ⟨_, hhere, ?_⟩⟩
      exact List.subset_cons_of_subset _ (List.subset_append_left ..)
    · obtain ⟨hmem, hfinished⟩ := ih hresult (halfway.next htakes.advance) hlt hchild hdescribes
      exact ⟨List.mem_cons_of_mem _ (List.mem_append_right _ hmem),
        hfinished.mono (List.subset_cons_of_subset _ (List.subset_append_right ..))⟩

/-- What the descriptions lead to is compared, unless there is a fault. -/
theorem Meets.finished {objects content : List Object} {comparisons : List Comparison}
    (h : tree.Compares 0 .start objects comparisons (.ok ())) {id : Nat}
    (hmeets : tree.Meets objects id content) :
    (id = 0 ∧ content = objects ∨ ⟨id, content⟩ ∈ comparisons) ∧
      tree.Finished comparisons id content := by
  induction hmeets with
  | root => exact ⟨.inl ⟨rfl, rfl⟩, fun _ _ => ⟨comparisons, h, List.Subset.refl _⟩⟩
  | @child id child index position content object _ hchild hdescribes hobject ih =>
    have hcontent : content ≠ [] := List.ne_nil_of_mem (List.mem_of_getElem? hobject)
    have hchildren : (tree.node id).children ≠ [] :=
      List.ne_nil_of_mem (List.mem_of_getElem? hchild)
    obtain ⟨below, hbelow, hsub⟩ := ih.2 hcontent hchildren
    obtain ⟨hmem, hfinished⟩ := hbelow.finished wf rfl (halfway_start content)
      (Nat.zero_le index) hobject hchild hdescribes
    exact ⟨.inr (hsub hmem), hfinished.mono hsub⟩

end

/-- What holds of the comparisons by which matching `objects` comes to `result`. -/
structure Accounted (tree : LayoutTree) (objects : List Object) (comparisons : List Comparison)
    (result : Except Mismatch Unit) : Prop where
  check_eq : tree.check objects = result
  /-- No node is compared twice, and the root is not compared again. -/
  once : (0 :: comparisons.map (·.id)).Nodup
  meets : ∀ c ∈ comparisons, tree.Meets objects c.id c.content
  /-- Without a fault, all that the descriptions lead to is compared. -/
  complete : result = .ok () → ∀ id content, tree.Meets objects id content →
    id = 0 ∧ content = objects ∨ ⟨id, content⟩ ∈ comparisons

theorem Compares.accounted {tree : LayoutTree} (wf : tree.WellFormed) (linked : tree.Linked)
    {objects : List Object} {comparisons : List Comparison} {result : Except Mismatch Unit}
    (h : tree.Compares 0 .start objects comparisons result) :
    tree.Accounted objects comparisons result where
  check_eq := h.checkFrom_eq
  once := by
    rw [List.nodup_cons, List.mem_map]
    refine ⟨?_, h.nodup wf linked (halfway_start objects)⟩
    rintro ⟨c, hc, hid⟩
    have := (h.stemsFrom wf linked (halfway_start objects) c hc).lt wf linked
    omega
  meets := h.meets wf (halfway_start objects) .root
  complete hresult id content hmeets := by
    subst hresult
    exact (hmeets.finished wf h).1

/-! ### A list for which every node is compared -/

section

variable {tree : LayoutTree} (wf : tree.WellFormed)

include wf

theorem Describes.index_eq_of_samples {id index position : Nat} {child : Node}
    (h : tree.Describes (tree.node id) (TagLayout.samples (tree.layoutsBelow id)) index position
      child) : index = position := by
  have ⟨_, _, hchild, _⟩ := h
  obtain ⟨_, _, _, hdescribes⟩ := describes_samples wf hchild
  exact h.index_unique hdescribes

variable (hallowed : ∀ id < tree.nodes.size, (tree.node id).requirement ≠ .forbidden)

include hallowed

theorem fits_samples (id : Nat) :
    tree.Fits (tree.node id) (TagLayout.samples (tree.layoutsBelow id)) where
  admitted index hindex := by
    have hlength := congrArg List.length (tag_samples wf id)
    rw [List.length_map, List.length_map] at hlength
    rw [hlength] at hindex
    obtain ⟨_, _, _, hdescribes⟩ := describes_samples wf (List.getElem?_eq_getElem hindex)
    have hbound := (wf.bounds id _ (List.getElem_mem hindex)).2
    exact .inl ⟨index, _, hdescribes, hallowed _ hbound⟩
  ordered _ i j p q a b hij ha hb := by
    have := ha.index_eq_of_samples wf
    have := hb.index_eq_of_samples wf
    omega
  complete position child hchild _ := by
    obtain ⟨_, _, _, hdescribes⟩ := describes_samples wf hchild
    exact ⟨position, hdescribes⟩

theorem checkFrom_samples (id : Nat) :
    tree.checkFrom (tree.node id) .start (TagLayout.samples (tree.layoutsBelow id)) = .ok () := by
  induction hsize : tree.nodes.size - id using Nat.strong_induction_on generalizing id with
  | _ size ih =>
    rw [checkFrom_start_eq_ok_iff wf]
    refine ⟨fits_samples wf hallowed id, fun index position child object hobject hdescribes => ?_⟩
    obtain rfl := hdescribes.index_eq_of_samples wf
    obtain ⟨childId, _, hchild, rfl, _⟩ := hdescribes
    obtain ⟨sample, hsample, hchildren, _⟩ := describes_samples wf hchild
    obtain rfl := Option.some.inj (hobject.symm.trans hsample)
    have hbounds := wf.bounds id childId (List.mem_of_getElem? hchild)
    rw [checkContent_eq_ok_iff, hchildren]
    exact fun _ _ => ih _ (by omega) childId rfl

end

theorem Meets.lt_size {tree : LayoutTree} (wf : tree.WellFormed) (linked : tree.Linked)
    {objects content : List Object} {id : Nat} (h : tree.Meets objects id content) :
    id < tree.nodes.size := by
  cases h with
  | root => exact linked.nonempty
  | child _ hchild => exact (wf.bounds _ _ (List.mem_of_getElem? hchild)).2

theorem Compares.perm_range_samples {tree : LayoutTree} (wf : tree.WellFormed)
    (linked : tree.Linked) {comparisons : List Comparison}
    (h : tree.Compares 0 .start (TagLayout.samples (tree.layoutsBelow 0)) comparisons (.ok ())) :
    (0 :: comparisons.map (·.id)).Perm (List.range tree.nodes.size) := by
  have accounted := h.accounted wf linked
  rw [List.perm_ext_iff_of_nodup accounted.once List.nodup_range]
  intro id
  rw [List.mem_cons, List.mem_map, List.mem_range]
  constructor
  · rintro (rfl | ⟨c, hc, rfl⟩)
    · exact linked.nonempty
    · exact (accounted.meets c hc).lt_size wf linked
  · intro hid
    rcases accounted.complete rfl id _ (meets_samples wf linked hid) with ⟨hroot, _⟩ | hmem
    · exact .inl hroot
    · exact .inr ⟨_, hmem, rfl⟩

/-! ### Trees as they are built -/

/-- What the links of a tree guarantee. -/
structure Arena (tree : LayoutTree) : Prop where
  linked : tree.Linked
  /-- Going from nodes to their children comes to an end. -/
  behind : ∀ id, ∀ child ∈ (tree.node id).children, id < child ∧ child < tree.nodes.size
  /-- Among siblings, those with a tag are numbered in their order. -/
  numbered : ∀ id tag, tree.skips id tag = List.range (tree.skips id tag).length
  /-- An occurrence is described by one child at most. -/
  distinct : ∀ id, ∀ a ∈ (tree.node id).children, ∀ b ∈ (tree.node id).children,
    (tree.node a).occurrence = (tree.node b).occurrence → a = b
  /-- A recursion on all children comes by every node once. -/
  walked : ∃ below, tree.Walks [0] (0 :: below) ∧
    (0 :: below).Perm (List.range tree.nodes.size) ∧
    below.map (fun id => (tree.node id).description?) =
      (TagLayout.allDescriptions tree.toLayout.children).map some
  /-- Reading the layout back is such a recursion. -/
  read : ∀ id, tree.layoutsBelow id = (tree.node id).children.filterMap tree.layout?
  /-- The descriptions lead to a node with one content at most, and to every node for some
  objects. -/
  matched : (∀ objects id content other, tree.Meets objects id content →
      tree.Meets objects id other → content = other) ∧
    ∃ objects, ∀ id < tree.nodes.size, ∃ content, tree.Meets objects id content
  /-- Matching comes to an end, by the comparisons that the descriptions lead to. -/
  compared : ∀ objects,
    (∃ comparisons, tree.Compares 0 .start objects comparisons (tree.check objects)) ∧
      ∀ comparisons result, tree.Compares 0 .start objects comparisons result →
        tree.Accounted objects comparisons result
  /-- Where no node is forbidden, there are objects for which every node is compared. -/
  exhausted : (∀ id < tree.nodes.size, (tree.node id).requirement ≠ .forbidden) →
    ∃ objects comparisons, tree.Compares 0 .start objects comparisons (.ok ()) ∧
      (0 :: comparisons.map (·.id)).Perm (List.range tree.nodes.size)

theorem Built.arena {tree : LayoutTree} (built : Built tree) : tree.Arena where
  linked := built.linked
  behind := built.wellFormed.bounds
  numbered := built.wellFormed.numbered
  distinct id a ha b hb hab := by
    obtain ⟨i, hi⟩ := List.getElem?_of_mem ha
    obtain ⟨j, hj⟩ := List.getElem?_of_mem hb
    obtain rfl := built.wellFormed.position_unique hi hj hab
    exact Option.some.inj (hi.symm.trans hj)
  walked := by
    obtain ⟨order, hwalks, hperm⟩ := built.walks
    cases hwalks with
    | @cons _ _ below _ hbelow hrest =>
      cases hrest
      rw [List.append_nil] at hperm
      refine ⟨below, ?_, hperm, ?_⟩
      · have hroot := Walks.cons hbelow .nil
        rwa [List.append_nil] at hroot
      · rw [hbelow.descriptions built.wellFormed (built.wellFormed.described 0),
          ← layoutsBelow_eq built.wellFormed]
        rfl
  read := layoutsBelow_eq built.wellFormed
  matched := ⟨fun _ _ _ _ h hother => h.unique built.wellFormed built.linked hother,
    TagLayout.samples (tree.layoutsBelow 0),
    fun id hid => ⟨_, meets_samples built.wellFormed built.linked hid⟩⟩
  compared objects := by
    refine ⟨?_, fun comparisons result h => h.accounted built.wellFormed built.linked⟩
    obtain ⟨comparisons, result, h⟩ := exists_compares built.wellFormed 0 .start objects
    refine ⟨comparisons, ?_⟩
    rw [check, h.checkFrom_eq]
    exact h
  exhausted hallowed := by
    obtain ⟨comparisons, result, h⟩ := exists_compares built.wellFormed 0 .start
      (TagLayout.samples (tree.layoutsBelow 0))
    have hresult : result = .ok () :=
      h.checkFrom_eq.symm.trans (checkFrom_samples built.wellFormed hallowed 0)
    subst hresult
    exact ⟨_, _, h, h.perm_range_samples built.wellFormed built.linked⟩

/-- Whatever children are added and flags are set, to an empty tree or to one made from a layout,
the links of the tree agree, and what is there stays as it is from then on. -/
theorem arena_of_grows {start tree : LayoutTree}
    (hstart : start = .empty ∨ ∃ layout, start = .ofLayout layout) (hgrows : start.Grows tree) :
    tree.Arena ∧ ∀ later, tree.Grows later → tree.Kept later := by
  have hbuilt : Built start := by
    rcases hstart with rfl | ⟨layout, rfl⟩
    · exact .empty
    · exact built_ofLayout layout
  exact ⟨(hbuilt.grows hgrows).arena, fun _ hlater => hlater.kept⟩

/-- A tag that may come twice, the first time with another one inside. -/
def repeatedLayout : DataLayout :=
  .ofTags [(TagLayout.leaf ⟨[0x6F], rfl⟩ .required).withChildren [.leaf (.context 1#4) .required],
    .leaf ⟨[0x6F], rfl⟩ .optional]

/-- The inner tag may come twice as well. -/
def repeatedTree : LayoutTree :=
  ((ofLayout repeatedLayout).addChild 1 (.context 1#4) .optional).2

theorem arena_of_grows_repeated :
    (ofLayout repeatedLayout).Grows repeatedTree ∧ repeatedTree.Arena ∧
      (ofLayout repeatedLayout).Kept repeatedTree ∧
      repeatedTree.skips 1 (.context 1#4) = [0, 1] ∧ (repeatedTree.node 3).parent = some 0 ∧
      ∃ objects comparisons, repeatedTree.Compares 0 .start objects comparisons (.ok ()) ∧
        (0 :: comparisons.map (·.id)).Perm [0, 1, 2, 3, 4] := by
  have hparent : 1 < (ofLayout repeatedLayout).nodes.size := by decide
  have hgrows : (ofLayout repeatedLayout).Grows repeatedTree := .addChild .refl hparent _ _
  obtain ⟨harena, _⟩ := arena_of_grows (.inr ⟨repeatedLayout, rfl⟩) hgrows
  obtain ⟨_, hkept⟩ := arena_of_grows (.inr ⟨repeatedLayout, rfl⟩) .refl
  have hallowed : ∀ id < repeatedTree.nodes.size,
      (repeatedTree.node id).requirement ≠ .forbidden := by decide
  exact ⟨hgrows, harena, hkept _ hgrows, by decide, by decide, harena.exhausted hallowed⟩

end SmartCard.LayoutTree
