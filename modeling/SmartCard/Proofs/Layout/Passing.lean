import SmartCard.Proofs.Context.Replay
import SmartCard.Proofs.Layout.Occurrences

/-!
# Passing objects

Matching goes over a list object by object, and what it has seen of a list is all that matters for
the rest. Faults are told by what comes first, so an exact diagnostic needs this view besides what
a whole list means.
-/

namespace SmartCard.LayoutTree

/-- What is known after one more object, unless the object does not match. -/
def pass (tree : LayoutTree) (node : Node) (progress : Progress) (object : Object) :
    Except Mismatch Progress :=
  match tree.advance node progress object.tag with
  | .error mismatch => .error mismatch
  | .ok (progress, none) => .ok progress
  | .ok (progress, some child) =>
    match tree.checkContent child object with
    | .error mismatch => .error mismatch
    | .ok () => .ok progress

section

variable {tree : LayoutTree} {node : Node}

theorem checkFrom_cons (progress : Progress) (object : Object) (rest : List Object) :
    tree.checkFrom node progress (object :: rest) =
      tree.pass node progress object >>= fun later => tree.checkFrom node later rest := by
  rw [checkFrom, pass]
  rcases tree.advance node progress object.tag with mismatch | ⟨later, _ | child⟩
  · rfl
  · rfl
  · cases hcontent : tree.checkContent child object with
    | error mismatch => simp [hcontent]; rfl
    | ok => simp [hcontent]; rfl

theorem checkFrom_append (progress : Progress) (before rest : List Object) :
    tree.checkFrom node progress (before ++ rest) =
      before.foldlM (tree.pass node) progress >>= fun later =>
        tree.checkFrom node later rest := by
  induction before generalizing progress with
  | nil => rfl
  | cons object before ih =>
    rw [List.cons_append, checkFrom_cons, List.foldlM_cons, bind_assoc]
    exact bind_congr fun later => ih later

theorem checkFrom_eq_bind (progress : Progress) (objects : List Object) :
    tree.checkFrom node progress objects =
      objects.foldlM (tree.pass node) progress >>= fun later =>
        if 0 < tree.requiredCount node - later.required then
          .error (.missing (tree.requiredCount node - later.required))
        else .ok () := by
  rw [← List.append_nil objects, checkFrom_append, List.append_nil]
  exact bind_congr fun later => checkFrom.eq_1 ..

theorem checkFrom_of_foldlM {progress later : Progress} {objects : List Object}
    (h : objects.foldlM (tree.pass node) progress = .ok later) :
    tree.checkFrom node progress objects =
      if 0 < tree.requiredCount node - later.required then
        .error (.missing (tree.requiredCount node - later.required))
      else .ok () := by
  rw [checkFrom_eq_bind, h]
  rfl

/-- A list without a fault is gone past, and enough required children have come up by then. -/
theorem exists_foldlM_of_checkFrom {progress : Progress} {objects : List Object}
    (h : tree.checkFrom node progress objects = .ok ()) :
    ∃ later, objects.foldlM (tree.pass node) progress = .ok later ∧
      tree.requiredCount node ≤ later.required := by
  rw [checkFrom_eq_bind] at h
  obtain ⟨later, hfold, hlast⟩ := exists_of_bind_eq_ok h
  refine ⟨later, hfold, ?_⟩
  split at hlast
  · exact absurd hlast nofun
  · omega

theorem advance_of_some {progress : Progress} {tag : Tag} {position : Nat} {child : Node}
    (hfound : tree.describing? node tag (progress.tally.count tag) = some (position, child)) :
    tree.advance node progress tag =
      if child.requirement = .forbidden then .error (.notAllowed tag)
      else if node.order = .strict ∧ position < progress.position then .error (.outOfOrder tag)
      else .ok (progress.hit node.order tag position child, some child) := by
  have hrequired : (if child.requirement = .required then progress.required + 1
      else progress.required) =
      progress.required + if child.requirement = .required then 1 else 0 := by split <;> rfl
  cases horder : node.order <;> simp [advance, hfound, horder, hrequired, Progress.hit]

theorem pass_eq_ok_iff {progress later : Progress} {object : Object} :
    tree.pass node progress object = .ok later ↔
      (tree.describing? node object.tag (progress.tally.count object.tag) = none ∧
        node.allowUnspecified = true ∧
        { progress with tally := progress.tally.bump object.tag } = later) ∨
      ∃ position child,
        tree.describing? node object.tag (progress.tally.count object.tag) =
          some (position, child) ∧
        child.requirement ≠ .forbidden ∧ (node.order = .strict → progress.position ≤ position) ∧
        tree.checkContent child object = .ok () ∧
        progress.hit node.order object.tag position child = later := by
  cases hhit : tree.describing? node object.tag (progress.tally.count object.tag) with
  | none =>
    by_cases hallow : node.allowUnspecified = true <;>
      simp [pass, advance, hhit, hallow]
  | some hit =>
    obtain ⟨position, child⟩ := hit
    by_cases hforbidden : child.requirement = .forbidden
    · simp [pass, advance_of_some hhit, hforbidden]
    by_cases hfalls : node.order = .strict ∧ position < progress.position
    · simp [pass, advance_of_some hhit, hforbidden, hfalls]
    have hle : node.order = .strict → progress.position ≤ position := by
      intro hstrict
      by_contra hlt
      exact hfalls ⟨hstrict, by omega⟩
    cases hcontent : tree.checkContent child object <;>
      simp [pass, advance_of_some hhit, hforbidden, hfalls, hcontent]
    exact fun _ => hle

theorem tally_of_pass {progress later : Progress} {object : Object}
    (h : tree.pass node progress object = .ok later) :
    later.tally = progress.tally.bump object.tag := by
  rcases pass_eq_ok_iff.mp h with ⟨_, _, rfl⟩ | ⟨_, _, _, _, _, _, rfl⟩
  · rfl
  · rfl

end

/-! ### How far the loop has come -/

/-- What is known after the first `index` objects of a list. -/
structure Reached (tree : LayoutTree) (node : Node) (objects : List Object) (index : Nat)
    (progress : Progress) : Prop where
  counts : ∀ tag, progress.tally.count tag = (objects.take index).countP (·.tag = tag)
  /-- The position is the last of those that describe the objects so far. -/
  farthest : node.order = .strict → ∀ bound, progress.position ≤ bound ↔
    ∀ k p a, k < index → tree.Describes node objects k p a → p ≤ bound

section

variable {tree : LayoutTree} (wf : tree.WellFormed) {id : Nat} {objects : List Object}

include wf

theorem Reached.describing? {index : Nat} {object : Object} {progress : Progress}
    (reached : tree.Reached (tree.node id) objects index progress)
    (hobject : objects[index]? = some object) (position : Nat) (child : Node) :
    tree.describing? (tree.node id) object.tag (progress.tally.count object.tag) =
        some (position, child) ↔
      tree.Describes (tree.node id) objects index position child := by
  rw [describes_iff_of_occurrenceAt? wf (occurrenceAt?_of_getElem? hobject), reached.counts]

theorem Reached.exists_pass {index : Nat} {object : Object} {progress : Progress}
    (reached : tree.Reached (tree.node id) objects index progress)
    (hobject : objects[index]? = some object)
    (hpass : tree.Passes (tree.node id) objects index)
    (hrising : (tree.node id).order = .strict → ∀ k p q a b, k < index →
      tree.Describes (tree.node id) objects k p a →
      tree.Describes (tree.node id) objects index q b → p < q) :
    ∃ later, tree.pass (tree.node id) progress object = .ok later ∧
      tree.Reached (tree.node id) objects (index + 1) later := by
  unfold Passes at hpass
  cases hat : tree.describingAt? (tree.node id) objects index with
  | none =>
    rw [hat] at hpass
    have hnone : ∀ p a, ¬ tree.Describes (tree.node id) objects index p a := by
      intro p a hdescribes
      rw [(describingAt?_eq_some_iff wf).mpr hdescribes] at hat
      exact Option.some_ne_none _ hat
    have hmissing : tree.describing? (tree.node id) object.tag
        (progress.tally.count object.tag) = none := by
      rw [Option.eq_none_iff_forall_ne_some]
      rintro ⟨p, a⟩ hsome
      exact hnone p a ((reached.describing? wf hobject p a).mp hsome)
    refine ⟨_, pass_eq_ok_iff.mpr (.inl ⟨hmissing, hpass, rfl⟩),
      Tally.count_bump_take reached.counts hobject, fun hstrict bound => ?_⟩
    rw [reached.farthest hstrict]
    refine ⟨fun h k p a hk hdescribes => ?_, fun h k p a hk => h k p a (by omega)⟩
    rcases Nat.lt_succ_iff_lt_or_eq.mp hk with hk | rfl
    · exact h k p a hk hdescribes
    · exact absurd hdescribes (hnone p a)
  | some hit =>
    obtain ⟨position, child⟩ := hit
    rw [hat] at hpass
    have hdescribes := (describingAt?_eq_some_iff wf).mp hat
    have hfound := (reached.describing? wf hobject position child).mpr hdescribes
    have hle : (tree.node id).order = .strict → progress.position ≤ position := by
      intro hstrict
      rw [reached.farthest hstrict]
      exact fun k p a hk h => (hrising hstrict k p position a child hk h hdescribes).le
    refine ⟨_, pass_eq_ok_iff.mpr (.inr ⟨position, child, hfound, hpass.1, hle,
      hpass.2 object hobject, rfl⟩), Tally.count_bump_take reached.counts hobject,
      fun hstrict bound => ?_⟩
    rw [Progress.hit, if_pos hstrict]
    constructor
    · intro hbound k p a hk h
      rcases Nat.lt_succ_iff_lt_or_eq.mp hk with hk | rfl
      · exact (hrising hstrict k p position a child hk h hdescribes).le.trans hbound
      · rwa [(h.unique wf hdescribes).1]
    · exact fun h => h index position child (Nat.lt_succ_self index) hdescribes

/-- The loop goes past objects that pass and, where the order matters, come in the order of the
children that describe them. -/
theorem exists_reached {index : Nat} (hlen : index ≤ objects.length)
    (hpasses : ∀ k < index, tree.Passes (tree.node id) objects k)
    (hrising : (tree.node id).order = .strict → ∀ i j p q a b, i < j → j < index →
      tree.Describes (tree.node id) objects i p a →
      tree.Describes (tree.node id) objects j q b → p < q) :
    ∃ progress, (objects.take index).foldlM (tree.pass (tree.node id)) .start = .ok progress ∧
      tree.Reached (tree.node id) objects index progress := by
  induction index with
  | zero =>
    refine ⟨.start, rfl, fun _ => rfl, fun _ bound => ?_⟩
    simp [Progress.start]
  | succ index ih =>
    obtain ⟨progress, hfold, reached⟩ := ih (by omega) (fun k hk => hpasses k (by omega))
      fun hstrict i j p q a b hij hj => hrising hstrict i j p q a b hij (by omega)
    have hobject : objects[index]? = some objects[index] := List.getElem?_eq_getElem hlen
    obtain ⟨later, hpass, hlater⟩ := reached.exists_pass wf hobject
      (hpasses index (Nat.lt_succ_self index))
      fun hstrict k p q a b hk => hrising hstrict k index p q a b hk (Nat.lt_succ_self index)
    refine ⟨later, ?_, hlater⟩
    rw [List.take_add_one, hobject, List.foldlM_append, hfold]
    exact (bind_pure _).trans hpass

/-- The first object that comes after one that is described behind it is out of order. -/
theorem checkFrom_eq_outOfOrder {index earlier p q : Nat} {a b : Node} {object : Object}
    (hstrict : (tree.node id).order = .strict)
    (hpasses : ∀ k < index, tree.Passes (tree.node id) objects k)
    (hrising : ∀ i j p q a b, i < j → j < index →
      tree.Describes (tree.node id) objects i p a →
      tree.Describes (tree.node id) objects j q b → p < q)
    (hobject : objects[index]? = some object)
    (hhere : tree.Describes (tree.node id) objects index p a)
    (hallowed : a.requirement ≠ .forbidden) (hlt : earlier < index)
    (hearlier : tree.Describes (tree.node id) objects earlier q b) (hfalls : p < q) :
    tree.checkFrom (tree.node id) .start objects = .error (.outOfOrder object.tag) := by
  obtain ⟨hindex, rfl⟩ := List.getElem?_eq_some_iff.mp hobject
  obtain ⟨progress, hfold, reached⟩ := exists_reached wf hindex.le hpasses fun _ => hrising
  have hbehind : p < progress.position := by
    by_contra hle
    have := (reached.farthest hstrict p).mp (by omega) earlier q b hlt hearlier
    omega
  have hpass : tree.pass (tree.node id) progress objects[index] =
      .error (.outOfOrder objects[index].tag) := by
    have hfound := (reached.describing? wf hobject p a).mpr hhere
    simp [pass, advance_of_some hfound, hallowed, hstrict, hbehind]
  calc tree.checkFrom (tree.node id) .start objects
    _ = tree.checkFrom (tree.node id) .start
          (objects.take index ++ objects[index] :: objects.drop (index + 1)) := by
      rw [← List.drop_eq_getElem_cons hindex, List.take_append_drop]
    _ = tree.checkFrom (tree.node id) progress
          (objects[index] :: objects.drop (index + 1)) := by
      rw [checkFrom_append, hfold]
      rfl
    _ = .error (.outOfOrder objects[index].tag) := by
      rw [checkFrom_cons, hpass]
      rfl

end

end SmartCard.LayoutTree
