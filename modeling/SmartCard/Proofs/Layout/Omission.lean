import SmartCard.Proofs.Layout.Passing

/-!
# Objects left out

A required object that is left out is missed once, in the list that it was left out of, and nothing
else about the data objects changes for it. The fault is passed up through all lists around. Only a
content that becomes empty places no expectation any more.
-/

namespace SmartCard.LayoutTree

/-- The tags of objects that are missed when they are left out of a list: each comes up there once,
and a required child describes it. -/
structure Omits (tree : LayoutTree) (node : Node) (objects : List Object) (tags : List Tag) :
    Prop where
  nodup : tags.Nodup
  once : ∀ tag ∈ tags, objects.countP (·.tag = tag) = 1
  required : ∀ tag ∈ tags, ∃ index object position child, objects[index]? = some object ∧
    object.tag = tag ∧ tree.Describes node objects index position child ∧
    child.requirement = .required

def without (tags : List Tag) (objects : List Object) : List Object :=
  objects.filter (·.tag ∉ tags)

/-! ### Going past the objects that are left -/

section

variable {tree : LayoutTree} {node : Node}

theorem position_le_of_pass {progress later : Progress} {object : Object}
    (h : tree.pass node progress object = .ok later) : progress.position ≤ later.position := by
  rcases pass_eq_ok_iff.mp h with ⟨_, _, rfl⟩ | ⟨position, child, _, _, hposition, _, rfl⟩
  · rfl
  · simp only [Progress.hit]
    split
    · exact hposition ‹_›
    · rfl

theorem required_of_pass {progress later : Progress} {object : Object} {position : Nat}
    {child : Node} (h : tree.pass node progress object = .ok later)
    (hfound : tree.describing? node object.tag (progress.tally.count object.tag) =
      some (position, child)) :
    later.required = progress.required + if child.requirement = .required then 1 else 0 := by
  rcases pass_eq_ok_iff.mp h with ⟨hnone, _⟩ | ⟨_, _, hsome, _, _, _, rfl⟩
  · rw [hfound] at hnone
    exact absurd hnone nofun
  · rw [hfound] at hsome
    obtain ⟨rfl, rfl⟩ := Prod.mk.inj (Option.some.inj hsome)
    rfl

/-- Objects are counted when they have come up. -/
theorem tally_add_countP_of_pass {progress later : Progress} {object : Object}
    (h : tree.pass node progress object = .ok later) (rest : List Object) (tag : Tag) :
    later.tally.count tag + rest.countP (·.tag = tag) =
      progress.tally.count tag + (object :: rest).countP (·.tag = tag) := by
  rw [tally_of_pass h, Tally.count_bump, List.countP_cons]
  simp only [decide_eq_true_eq, eq_comm (a := tag)]
  omega

theorem tally_of_foldlM {progress later : Progress} {objects : List Object}
    (h : objects.foldlM (tree.pass node) progress = .ok later) (tag : Tag) :
    later.tally.count tag = progress.tally.count tag + objects.countP (·.tag = tag) := by
  induction objects generalizing progress with
  | nil =>
    obtain rfl : progress = later := Except.ok.inj h
    rfl
  | cons object rest ih =>
    rw [List.foldlM_cons] at h
    obtain ⟨middle, hpass, hrest⟩ := exists_of_bind_eq_ok h
    rw [ih hrest, tally_add_countP_of_pass hpass]

/-- What is known when objects with some tags are left out, beside what is known with them. -/
structure Trails (tags : List Tag) (sparse progress : Progress) : Prop where
  counts : ∀ tag, tag ∉ tags → sparse.tally.count tag = progress.tally.count tag
  position : sparse.position ≤ progress.position

section

variable {tags : List Tag} {progress later sparse : Progress} {object : Object}

theorem Trails.omit (trails : Trails tags sparse progress) (hmem : object.tag ∈ tags)
    (h : tree.pass node progress object = .ok later) : Trails tags sparse later where
  counts tag htag := by
    have hne : tag ≠ object.tag := by
      rintro rfl
      exact htag hmem
    rw [tally_of_pass h, Tally.count_bump, if_neg hne, Nat.add_zero, trails.counts tag htag]
  position := trails.position.trans (position_le_of_pass h)

/-- What goes past an object also does with an earlier position and fewer required ones before. -/
theorem Trails.exists_pass (trails : Trails tags sparse progress) (hmem : object.tag ∉ tags)
    (h : tree.pass node progress object = .ok later) :
    ∃ next, tree.pass node sparse object = .ok next ∧ Trails tags next later ∧
      next.required + progress.required = later.required + sparse.required := by
  have hcount := trails.counts object.tag hmem
  obtain ⟨next, hnext, hposition, hrequired⟩ : ∃ next, tree.pass node sparse object = .ok next ∧
      next.position ≤ later.position ∧
      next.required + progress.required = later.required + sparse.required := by
    rcases pass_eq_ok_iff.mp h with
      ⟨hnone, hallow, rfl⟩ | ⟨position, child, hfound, hallowed, hle, hcontent, rfl⟩
    · rw [← hcount] at hnone
      exact ⟨_, pass_eq_ok_iff.mpr (.inl ⟨hnone, hallow, rfl⟩), trails.position, Nat.add_comm ..⟩
    · rw [← hcount] at hfound
      refine ⟨_, pass_eq_ok_iff.mpr (.inr ⟨position, child, hfound, hallowed,
        fun hstrict => trails.position.trans (hle hstrict), hcontent, rfl⟩), ?_, ?_⟩
      · simp only [Progress.hit]
        split
        · rfl
        · exact trails.position
      · simp only [Progress.hit]
        omega
  refine ⟨next, hnext, ⟨fun tag htag => ?_, hposition⟩, hrequired⟩
  rw [tally_of_pass h, tally_of_pass hnext, Tally.count_bump, Tally.count_bump,
    trails.counts tag htag]

end

/-- The loop goes past the remaining objects as well, with fewer required ones. -/
theorem exists_foldlM_without {tags : List Tag}
    (hrequired : ∀ tag ∈ tags, ∃ position child,
      tree.describing? node tag 0 = some (position, child) ∧ child.requirement = .required)
    {objects : List Object} {progress later sparse : Progress}
    (hfold : objects.foldlM (tree.pass node) progress = .ok later)
    (honce : ∀ tag ∈ tags, progress.tally.count tag + objects.countP (·.tag = tag) ≤ 1)
    (trails : Trails tags sparse progress) :
    ∃ last, (without tags objects).foldlM (tree.pass node) sparse = .ok last ∧
      last.required + progress.required + objects.countP (·.tag ∈ tags) =
        later.required + sparse.required := by
  induction objects generalizing progress sparse with
  | nil =>
    obtain rfl : progress = later := Except.ok.inj hfold
    exact ⟨sparse, rfl, by simp [Nat.add_comm]⟩
  | cons object rest ih =>
    rw [List.foldlM_cons] at hfold
    obtain ⟨middle, hpass, hfold⟩ := exists_of_bind_eq_ok hfold
    have honce' : ∀ tag ∈ tags, middle.tally.count tag + rest.countP (·.tag = tag) ≤ 1 :=
      fun tag htag => tally_add_countP_of_pass hpass rest tag ▸ honce tag htag
    by_cases hmem : object.tag ∈ tags
    · have hwithout : without tags (object :: rest) = without tags rest := by
        simp [without, hmem]
      have hmiddle : middle.required = progress.required + 1 := by
        obtain ⟨position, child, hfound, hreq⟩ := hrequired object.tag hmem
        have hfirst : progress.tally.count object.tag = 0 := by
          have := honce object.tag hmem
          simp only [List.countP_cons, decide_true, if_true] at this
          omega
        rw [← hfirst] at hfound
        rw [required_of_pass hpass hfound, if_pos hreq]
      obtain ⟨last, hlast, hsum⟩ := ih hfold honce' (trails.omit hmem hpass)
      refine ⟨last, hwithout ▸ hlast, ?_⟩
      simp only [List.countP_cons, hmem, decide_true, if_true]
      omega
    · have hwithout : without tags (object :: rest) = object :: without tags rest := by
        simp [without, hmem]
      obtain ⟨next, hnext, htrails, hsum⟩ := trails.exists_pass hmem hpass
      obtain ⟨last, hlast, hsum'⟩ := ih hfold honce' htrails
      refine ⟨last, ?_, ?_⟩
      · rw [hwithout, List.foldlM_cons, hnext]
        exact hlast
      · rw [List.countP_cons_of_neg (by simp [hmem])]
        omega

/-- The objects that are left out are as many as their tags. -/
theorem countP_mem_eq_length {objects : List Object} {tags : List Tag} (hnodup : tags.Nodup)
    (honce : ∀ tag ∈ tags, objects.countP (·.tag = tag) = 1) :
    objects.countP (·.tag ∈ tags) = tags.length := by
  have hperm : ((objects.map (·.tag)).filter (· ∈ tags)).Perm tags := by
    rw [List.perm_iff_count]
    intro tag
    by_cases hmem : tag ∈ tags
    · rw [List.count_filter (by simp [hmem]), List.count_eq_one_of_mem hnodup hmem,
        ← honce tag hmem, List.count, List.countP_map]
      exact List.countP_congr fun object _ => by simp
    · rw [List.count_eq_zero_of_not_mem hmem, List.count_eq_zero_of_not_mem (by simp [hmem])]
  rw [← hperm.length_eq, ← List.countP_eq_length_filter, List.countP_map]
  rfl

/-- Another object with the same tag is gone past in the same way, apart from its content. -/
theorem pass_eq_bind {progress later : Progress} {object other : Object} {position : Nat}
    {child : Node} (h : tree.pass node progress object = .ok later)
    (hfound : tree.describing? node object.tag (progress.tally.count object.tag) =
      some (position, child)) (htag : other.tag = object.tag) :
    tree.pass node progress other = tree.checkContent child other >>= fun _ => .ok later := by
  rcases pass_eq_ok_iff.mp h with ⟨hnone, _⟩ | ⟨_, _, hsome, hallowed, hle, _, rfl⟩
  · rw [hfound] at hnone
    exact absurd hnone nofun
  rw [hfound] at hsome
  obtain ⟨rfl, rfl⟩ := Prod.mk.inj (Option.some.inj hsome)
  have hrises : ¬ (node.order = .strict ∧ position < progress.position) :=
    fun hfalls => Nat.not_lt.mpr (hle hfalls.1) hfalls.2
  rw [pass, htag, advance_of_some hfound, if_neg hallowed, if_neg hrises]
  cases hcontent : tree.checkContent child other <;> simp [hcontent] <;> rfl

end

/-! ### One list -/

section

variable {tree : LayoutTree} (wf : tree.WellFormed) {id : Nat}

include wf

theorem Omits.describing? {objects : List Object} {tags : List Tag}
    (omits : tree.Omits (tree.node id) objects tags) {tag : Tag} (htag : tag ∈ tags) :
    ∃ position child, tree.describing? (tree.node id) tag 0 = some (position, child) ∧
      child.requirement = .required := by
  obtain ⟨index, object, position, child, hobject, rfl, hdescribes, hrequired⟩ :=
    omits.required tag htag
  have hat := occurrenceAt?_of_once hobject (omits.once _ htag)
  exact ⟨position, child, (describes_iff_of_occurrenceAt? wf hat).mp hdescribes, hrequired⟩

theorem exists_foldlM_of_omits {objects : List Object} {tags : List Tag} {later : Progress}
    (omits : tree.Omits (tree.node id) objects tags)
    (hfold : objects.foldlM (tree.pass (tree.node id)) .start = .ok later) :
    ∃ last, (without tags objects).foldlM (tree.pass (tree.node id)) .start = .ok last ∧
      last.required + tags.length = later.required := by
  obtain ⟨last, hlast, hsum⟩ := exists_foldlM_without (fun tag htag => omits.describing? wf htag)
    hfold (fun tag htag => (omits.once tag htag).symm ▸ Nat.le_refl 1)
    ⟨fun _ _ => rfl, Nat.le_refl _⟩
  rw [countP_mem_eq_length omits.nodup omits.once] at hsum
  exact ⟨last, hlast, by simpa [Progress.start] using hsum⟩

/-- No more than the required children come up, or one of them could be left out. -/
theorem required_le_of_omits {objects : List Object} {tags : List Tag} {later : Progress}
    (omits : tree.Omits (tree.node id) objects tags) (hne : tags ≠ [])
    (hfold : objects.foldlM (tree.pass (tree.node id)) .start = .ok later) :
    later.required ≤ tree.requiredCount (tree.node id) := by
  obtain ⟨tag, htag⟩ := List.exists_mem_of_ne_nil tags hne
  have one : tree.Omits (tree.node id) objects [tag] := by
    refine ⟨List.nodup_singleton tag, ?_, ?_⟩
    · exact fun other hother => List.mem_singleton.mp hother ▸ omits.once tag htag
    · exact fun other hother => List.mem_singleton.mp hother ▸ omits.required tag htag
  obtain ⟨last, hlast, hsum⟩ := exists_foldlM_of_omits wf one hfold
  by_contra hmore
  have hok : tree.checkFrom (tree.node id) .start (without [tag] objects) = .ok () := by
    rw [checkFrom_of_foldlM hlast, if_neg]
    rw [List.length_singleton] at hsum
    omega
  -- the child that describes the object that is left out has no object any more
  obtain ⟨position, child, hfound, hrequired⟩ := one.describing? wf (List.mem_singleton_self tag)
  obtain ⟨childId, hchild, rfl, hoccurrence⟩ := (describing?_eq_some_iff wf).mp hfound
  obtain ⟨occurrence, object, hat, hobject⟩ :=
    ((checkFrom_start_eq_ok_iff_admits wf id _).mp hok).1.complete childId
      (List.mem_of_getElem? hchild) hrequired
  obtain rfl : occurrence = ⟨tag, 0⟩ := Option.some.inj (hat.symm.trans hoccurrence)
  obtain ⟨hmem, htag⟩ := List.mem_filter.mp (List.mem_of_getElem? hobject)
  have hleft : object.tag ∉ [tag] := of_decide_eq_true (List.mem_filter.mp hmem).2
  exact hleft (List.mem_singleton.mpr (of_decide_eq_true htag))

theorem checkFrom_without {objects : List Object} {tags : List Tag}
    (omits : tree.Omits (tree.node id) objects tags) (hne : tags ≠ [])
    (hok : tree.checkFrom (tree.node id) .start objects = .ok ()) :
    tree.checkFrom (tree.node id) .start (without tags objects) =
      .error (.missing tags.length) := by
  obtain ⟨later, hfold, henough⟩ := exists_foldlM_of_checkFrom hok
  obtain ⟨last, hlast, hsum⟩ := exists_foldlM_of_omits wf omits hfold
  have hexact := required_le_of_omits wf omits hne hfold
  have hpos := List.length_pos_iff.mpr hne
  have hmissing : tree.requiredCount (tree.node id) - last.required = tags.length := by omega
  rw [checkFrom_of_foldlM hlast, hmissing, if_pos hpos]

end

/-! ### A list within others -/

/-- An object around a list, with what stands before and behind it. -/
structure Layer where
  before : List Object
  tag : Tag
  after : List Object

/-- The objects with `content` within all layers, the first of which is the outermost. -/
def around : List Layer → List Object → List Object
  | [], content => content
  | layer :: layers, content =>
    layer.before ++ .constructed layer.tag (around layers content) :: layer.after

theorem around_eq_nil_iff {layers : List Layer} {content : List Object} :
    around layers content = [] ↔ layers = [] ∧ content = [] := by
  cases layers <;> simp [around]

/-- Matching against a node goes through the layers around `content`, which it matches against
`inner`. -/
inductive Opens (tree : LayoutTree) (inner : Node) (content : List Object) :
    Node → List Layer → Prop
  | here : Opens tree inner content inner []
  | inside {node child : Node} {layer : Layer} {layers : List Layer} {position : Nat}
      (describes : tree.Describes node (around (layer :: layers) content) layer.before.length
        position child)
      (filled : around layers content ≠ []) (expects : child.children ≠ [])
      (opens : tree.Opens inner content child layers) :
      Opens tree inner content node (layer :: layers)

section

variable {tree : LayoutTree} (wf : tree.WellFormed)

include wf

/-- In a list without faults, what an object contains matters to that object only. -/
theorem checkFrom_content {id position : Nat} {child : Node} {before after children : List Object}
    {tag : Tag}
    (hok : tree.checkFrom (tree.node id) .start (before ++ .constructed tag children :: after) =
      .ok ())
    (hdescribes : tree.Describes (tree.node id) (before ++ .constructed tag children :: after)
      before.length position child) :
    tree.checkContent child (.constructed tag children) = .ok () ∧
    ∀ other, tree.checkFrom (tree.node id) .start (before ++ .constructed tag other :: after) =
      tree.checkContent child (.constructed tag other) := by
  rw [checkFrom_append] at hok
  obtain ⟨progress, hfold, hok⟩ := exists_of_bind_eq_ok hok
  rw [checkFrom_cons] at hok
  obtain ⟨later, hpass, hafter⟩ := exists_of_bind_eq_ok hok
  have hobject : (before ++ .constructed tag children :: after)[before.length]? =
      some (.constructed tag children) := by simp
  have hat := occurrenceAt?_of_getElem? hobject
  rw [List.take_left] at hat
  have hstart : Progress.start.tally.count tag = 0 := rfl
  have hfound : tree.describing? (tree.node id) tag (progress.tally.count tag) =
      some (position, child) := by
    rw [tally_of_foldlM hfold, hstart, Nat.zero_add]
    exact (describes_iff_of_occurrenceAt? wf hat).mp hdescribes
  have hcontent : ∀ other, tree.checkFrom (tree.node id) .start
      (before ++ .constructed tag other :: after) =
        tree.checkContent child (.constructed tag other) := by
    intro other
    have hother : tree.pass (tree.node id) progress (.constructed tag other) =
        tree.checkContent child (.constructed tag other) >>= fun _ => .ok later :=
      pass_eq_bind hpass hfound rfl
    rw [checkFrom_append, hfold]
    change tree.checkFrom (tree.node id) progress (.constructed tag other :: after) = _
    rw [checkFrom_cons, hother]
    cases tree.checkContent child (.constructed tag other) with
    | error mismatch => rfl
    | ok => exact hafter
  refine ⟨?_, hcontent⟩
  rw [← hcontent, checkFrom_append, hfold]
  exact (checkFrom_cons ..).trans hok

/-- Matching comes to the innermost list, and what it finds there is what it finds in all. -/
theorem Opens.checkFrom_around {id : Nat} {inner : Node} {content : List Object}
    {layers : List Layer} (opens : tree.Opens inner content (tree.node id) layers)
    (hok : tree.checkFrom (tree.node id) .start (around layers content) = .ok ()) :
    (∃ innerId, tree.node innerId = inner) ∧ tree.checkFrom inner .start content = .ok () ∧
    ∀ other, tree.checkFrom (tree.node id) .start (around layers other) =
      if layers ≠ [] ∧ other = [] then .ok () else tree.checkFrom inner .start other := by
  induction layers generalizing id with
  | nil =>
    cases opens
    exact ⟨⟨id, rfl⟩, hok, fun other => by simp [around]⟩
  | cons layer layers ih =>
    obtain _ | ⟨hdescribes, hfilled, hexpects, opens⟩ := opens
    obtain ⟨hinside, hcontent⟩ := checkFrom_content wf hok hdescribes
    obtain ⟨childId, _, _, rfl, _, _⟩ := hdescribes
    have hcheck : ∀ content, content ≠ [] →
        tree.checkContent (tree.node childId) (.constructed layer.tag content) =
          tree.checkFrom (tree.node childId) .start content := by
      intro content hne
      simp [checkContent, hne, hexpects]
    rw [hcheck _ hfilled] at hinside
    obtain ⟨hinner, hok, hsame⟩ := ih opens hinside
    refine ⟨hinner, hok, fun other => ?_⟩
    rw [around, hcontent]
    by_cases hnil : around layers other = []
    · obtain ⟨_, rfl⟩ := around_eq_nil_iff.mp hnil
      simp [checkContent, hnil]
    · rw [hcheck _ hnil, hsame]
      rw [around_eq_nil_iff] at hnil
      by_cases hempty : other = []
      · simp_all
      · simp [hempty]

end

theorem message_missing (count : Nat) :
    (Mismatch.missing count).message =
      if count = 1 then "missing 1 more mandatory tag"
      else "missing " ++ count.repr ++ " more mandatory tags" := by
  have hmessage : (Mismatch.missing count).message =
      "missing " ++ count.repr ++ " more mandatory tag" ++ (if count = 1 then "" else "s") := rfl
  by_cases hone : count = 1
  · subst hone
    rfl
  · rw [hmessage, if_neg hone, if_neg hone, String.append_assoc]
    rfl

/-- Required objects that are left out of a list, at whatever depth matching comes to it, are
counted in the diagnostic, unless nothing is left of a content. -/
theorem verdict_without {tree : LayoutTree} (built : Built tree) {layers : List Layer}
    {content : List Object} {inner : Node} {tags : List Tag}
    (hmatch : (tree.verdict (around layers content)).isMatch = true)
    (opens : tree.Opens inner content (tree.node 0) layers)
    (omits : tree.Omits inner content tags) (hne : tags ≠ []) :
    (layers = [] ∨ without tags content ≠ [] →
      tree.verdict (around layers (without tags content)) =
        ⟨.wrongData, if tags.length = 1 then "missing 1 more mandatory tag"
          else "missing " ++ tags.length.repr ++ " more mandatory tags"⟩) ∧
    (layers ≠ [] → without tags content = [] →
      (tree.verdict (around layers (without tags content))).isMatch = true) := by
  have wf := built.wellFormed
  obtain ⟨⟨innerId, rfl⟩, hok, hsame⟩ := opens.checkFrom_around wf (isMatch_verdict_iff.mp hmatch)
  constructor
  · intro hleft
    have hexpects : ¬ (layers ≠ [] ∧ without tags content = []) := by tauto
    rw [verdict, check, hsame, if_neg hexpects, checkFrom_without wf omits hne hok,
      ← message_missing]
  · intro hlayers hempty
    rw [isMatch_verdict_iff, check, hsame, if_pos ⟨hlayers, hempty⟩]

theorem verdict_without_twofoldTree :
    let layers : List Layer := [⟨[], ⟨[0x7D], rfl⟩, []⟩]
    let content : List Object := [.primitive (.context 3#4) [1], .primitive (.context 1#4) []]
    let alone : List Object := [.primitive (.context 1#4) []]
    Built twofoldTree ∧ (twofoldTree.verdict (around layers content)).isMatch = true ∧
      twofoldTree.verdict (around layers (without [.context 1#4] content)) =
        ⟨.wrongData, "missing 1 more mandatory tag"⟩ ∧
      (twofoldTree.verdict (around layers (without [.context 1#4] alone))).isMatch = true := by
  intro layers content alone
  have wf := built_twofoldTree.wellFormed
  have opens : ∀ inside : List Object, inside ≠ [] →
      twofoldTree.Opens (twofoldTree.node 1) inside (twofoldTree.node 0) layers := by
    intro inside hne
    have hdescribes : twofoldTree.Describes (twofoldTree.node 0) (around layers inside) 0 0
        (twofoldTree.node 1) := ⟨1, ⟨⟨[0x7D], rfl⟩, 0⟩, rfl, rfl, rfl, rfl⟩
    exact .inside hdescribes hne (by decide) .here
  have omits : ∀ (inside : List Object) (index : Nat),
      inside[index]? = some (.primitive (.context 1#4) []) →
      inside.countP (·.tag = .context 1#4) = 1 →
      twofoldTree.Omits (twofoldTree.node 1) inside [.context 1#4] := by
    intro inside index hobject honce
    have hat := occurrenceAt?_of_once hobject honce
    refine ⟨List.nodup_singleton _, fun tag htag => ?_, fun tag htag => ?_⟩
    · rw [List.mem_singleton.mp htag]
      exact honce
    · rw [List.mem_singleton.mp htag]
      exact ⟨index, _, 0, _, hobject, rfl, ⟨2, _, rfl, rfl, rfl, hat⟩, by decide⟩
  have hfilled := (verdict_without built_twofoldTree (by decide) (opens content (by decide))
    (omits content 1 rfl (by decide)) (by decide)).1 (.inr (by decide))
  have halone := (verdict_without built_twofoldTree (by decide) (opens alone (by decide))
    (omits alone 0 rfl (by decide)) (by decide)).2 (by decide) (by decide)
  exact ⟨built_twofoldTree, by decide, hfilled, halone⟩

end SmartCard.LayoutTree
