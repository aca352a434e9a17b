import Mathlib.Data.List.Nodup
import SmartCard.Command.Lineage

/-!
# Lineages of commands

Handles are issued one after the other, each under a serial of its own, and some are derived from
handles that are there. Going from a handle to the one that it was derived from, and on from there,
ends, and passes through exactly those that it descends from. This is a strict order.
-/

namespace SmartCard

namespace Handle

/-- Handles that were issued one after the other, each by itself or derived from one that is
there. -/
inductive Issued : List Handle → Prop
  | nil : Issued []
  | root {handles : List Handle} {serial : Serial} (issued : Issued handles)
      (hfresh : ∀ handle ∈ handles, handle.serial ≠ serial) (command : Command) :
      Issued (handles ++ [.root serial command])
  | derive {handles : List Handle} {parent : Handle} {serial : Serial} (issued : Issued handles)
      (hparent : parent ∈ handles) (hfresh : ∀ handle ∈ handles, handle.serial ≠ serial)
      (command : Command) : Issued (handles ++ [parent.derive serial command])

/-- The one of the handles that a handle was derived from. -/
def predecessor? (handles : List Handle) (handle : Handle) : Option Handle :=
  handle.ancestors.head?.bind fun nearest => handles.find? (·.serial = nearest.1)

/-- Going from a handle to its predecessor, and on from there, passes through `passed` and ends. -/
inductive Passes (handles : List Handle) : Handle → (passed : List Handle) → Prop
  | last {handle : Handle} (hnone : predecessor? handles handle = none) : Passes handles handle []
  | next {handle predecessor : Handle} {passed : List Handle}
      (hsome : predecessor? handles handle = some predecessor)
      (hrest : Passes handles predecessor passed) : Passes handles handle (predecessor :: passed)

theorem Passes.unique {handles : List Handle} {handle : Handle} {passed other : List Handle}
    (h : Passes handles handle passed) (hother : Passes handles handle other) : other = passed := by
  induction h generalizing other with
  | last hnone =>
    cases hother with
    | last => rfl
    | next hsome =>
      rw [hnone] at hsome
      cases hsome
  | next hsome _ ih =>
    cases hother with
    | last hnone =>
      rw [hsome] at hnone
      cases hnone
    | next hsome' hrest =>
      rw [hsome] at hsome'
      cases hsome'
      rw [ih hrest]

theorem descendsFrom_iff (handle ancestor : Handle) :
    handle.descendsFrom ancestor = true ↔ ancestor.serial ∈ handle.ancestors.map (·.1) := by
  simp [descendsFrom]

/-! ### What is issued -/

section

variable {handles : List Handle}

theorem mem_concat_cases {handle new : Handle} (h : handle ∈ handles ++ [new]) :
    handle ∈ handles ∨ handle = new := by
  simpa using h

theorem Issued.nodup_serials (issued : Issued handles) : (handles.map (·.serial)).Nodup := by
  induction issued with
  | nil => exact List.nodup_nil
  | @root handles serial _ hfresh _ ih | @derive handles _ serial _ _ hfresh _ ih =>
    have hnew : ∀ other ∈ handles.map (·.serial), ∀ last ∈ [serial], other ≠ last := by
      intro other hother last hlast
      obtain ⟨handle, hhandle, rfl⟩ := List.mem_map.mp hother
      rw [List.mem_singleton.mp hlast]
      exact hfresh handle hhandle
    rw [List.map_append]
    exact List.nodup_append.mpr ⟨ih, List.nodup_singleton _, hnew⟩

/-- A serial tells a handle from all others. -/
theorem Issued.eq_of_serial_eq (issued : Issued handles) {a b : Handle} (ha : a ∈ handles)
    (hb : b ∈ handles) (h : a.serial = b.serial) : a = b :=
  List.inj_on_of_nodup_map issued.nodup_serials ha hb h

/-- The ancestors of a handle are its parent and the ancestors of that. -/
theorem Issued.exists_parent (issued : Issued handles) {handle : Handle} (hmem : handle ∈ handles)
    {nearest : Serial × Command} {rest : List (Serial × Command)}
    (h : handle.ancestors = nearest :: rest) :
    ∃ parent ∈ handles, nearest = (parent.serial, parent.command) ∧ parent.ancestors = rest := by
  induction issued with
  | nil => cases hmem
  | root _ _ _ ih =>
    rcases mem_concat_cases hmem with hold | rfl
    · obtain ⟨parent, hparent, heq⟩ := ih hold
      exact ⟨parent, List.mem_append_left _ hparent, heq⟩
    · cases h
  | @derive _ parent _ _ hparent _ _ ih =>
    rcases mem_concat_cases hmem with hold | rfl
    · obtain ⟨parent, hparent, heq⟩ := ih hold
      exact ⟨parent, List.mem_append_left _ hparent, heq⟩
    · cases h
      exact ⟨parent, List.mem_append_left _ hparent, rfl, rfl⟩

theorem Issued.predecessor?_eq (issued : Issued handles) {parent : Handle}
    (hparent : parent ∈ handles) {handle : Handle} {rest : List (Serial × Command)}
    (h : handle.ancestors = (parent.serial, parent.command) :: rest) :
    predecessor? handles handle = some parent := by
  rw [predecessor?, h, List.head?_cons, Option.bind_some]
  have hfound : (handles.find? (·.serial = parent.serial)).isSome := by
    rw [List.find?_isSome]
    exact ⟨parent, hparent, by simp⟩
  obtain ⟨found, hfind⟩ := Option.isSome_iff_exists.mp hfound
  have hserial : found.serial = parent.serial := by simpa using List.find?_some hfind
  rw [hfind, issued.eq_of_serial_eq (List.mem_of_find?_eq_some hfind) hparent hserial]

/-- Going back from predecessor to predecessor passes through the ancestors. -/
theorem Issued.passes (issued : Issued handles) {handle : Handle} (hmem : handle ∈ handles) :
    ∃ passed, Passes handles handle passed ∧ (∀ ancestor ∈ passed, ancestor ∈ handles) ∧
      passed.map (fun ancestor => (ancestor.serial, ancestor.command)) = handle.ancestors := by
  generalize hancestors : handle.ancestors = ancestors
  induction ancestors generalizing handle with
  | nil =>
    have hnone : predecessor? handles handle = none := by rw [predecessor?, hancestors]; rfl
    exact ⟨[], .last hnone, nofun, rfl⟩
  | cons nearest rest ih =>
    obtain ⟨parent, hparent, rfl, hrest⟩ := issued.exists_parent hmem hancestors
    obtain ⟨passed, hpasses, hpassed, heq⟩ := ih hparent hrest
    refine ⟨parent :: passed, .next (issued.predecessor?_eq hparent hancestors) hpasses, ?_, ?_⟩
    · exact List.forall_mem_cons.mpr ⟨hparent, hpassed⟩
    · rw [List.map_cons, heq]

/-- The ancestors of an ancestor are ancestors too, in the same order. -/
theorem Issued.ancestors_suffix (issued : Issued handles) {handle ancestor : Handle}
    (hmem : handle ∈ handles) (hancestor : ancestor ∈ handles)
    (h : handle.descendsFrom ancestor = true) : ancestor.ancestors <:+ handle.ancestors := by
  rw [descendsFrom_iff] at h
  generalize hancestors : handle.ancestors = ancestors at h ⊢
  induction ancestors generalizing handle with
  | nil => cases h
  | cons nearest rest ih =>
    obtain ⟨parent, hparent, rfl, hrest⟩ := issued.exists_parent hmem hancestors
    rcases List.mem_cons.mp h with hserial | hlater
    · obtain rfl := issued.eq_of_serial_eq hancestor hparent hserial
      rw [hrest]
      exact List.suffix_cons ..
    · exact (ih hparent hrest hlater).trans (List.suffix_cons ..)

theorem Issued.descendsFrom_trans (issued : Issued handles) {a b c : Handle} (ha : a ∈ handles)
    (hb : b ∈ handles) (hab : a.descendsFrom b = true) (hbc : b.descendsFrom c = true) :
    a.descendsFrom c = true := by
  rw [descendsFrom_iff] at hbc ⊢
  exact ((issued.ancestors_suffix ha hb hab).map _).subset hbc

/-- No handle is among its own ancestors, since it was not there when they were issued. -/
theorem Issued.descendsFrom_irrefl (issued : Issued handles) {handle : Handle}
    (hmem : handle ∈ handles) : handle.descendsFrom handle = false := by
  induction issued with
  | nil => cases hmem
  | root _ _ _ ih =>
    rcases mem_concat_cases hmem with hold | rfl
    · exact ih hold
    · rfl
  | @derive handles parent serial issued hparent hfresh command ih =>
    rcases mem_concat_cases hmem with hold | rfl
    · exact ih hold
    · rw [Bool.eq_false_iff]
      intro hself
      rw [descendsFrom_iff] at hself
      obtain ⟨passed, _, hpassed, heq⟩ := issued.passes hparent
      rcases List.mem_cons.mp hself with hserial | hlater
      · exact hfresh parent hparent hserial.symm
      · rw [← heq, List.map_map] at hlater
        obtain ⟨ancestor, hancestor, hserial⟩ := List.mem_map.mp hlater
        exact hfresh ancestor (hpassed ancestor hancestor) hserial

theorem Issued.descendsFrom_asymm (issued : Issued handles) {a b : Handle} (ha : a ∈ handles)
    (hb : b ∈ handles) (hab : a.descendsFrom b = true) : b.descendsFrom a = false := by
  rw [Bool.eq_false_iff]
  intro hba
  have hself := issued.descendsFrom_trans ha hb hab hba
  rw [issued.descendsFrom_irrefl ha] at hself
  cases hself

end

/-- Handles that are told apart by their serials and ordered by descent. -/
structure Genealogy (handles : List Handle) : Prop where
  identity : ∀ a ∈ handles, ∀ b ∈ handles, a.serial = b.serial → a = b
  /-- What a handle was derived from is its predecessor. -/
  predecessor : ∀ parent ∈ handles, ∀ serial command,
    predecessor? handles (parent.derive serial command) = some parent ∧
      predecessor? handles (.root serial command) = none
  /-- Going back from a handle ends, and passes through what it descends from. -/
  passes : ∀ handle ∈ handles, ∃ passed, Passes handles handle passed ∧
    (∀ other, Passes handles handle other → other = passed) ∧
    passed.map (·.command) = handle.predecessors ∧
    ∀ ancestor ∈ handles, handle.descendsFrom ancestor = true ↔ ancestor ∈ passed
  irreflexive : ∀ handle ∈ handles, handle.descendsFrom handle = false
  asymmetric : ∀ a ∈ handles, ∀ b ∈ handles, a.descendsFrom b = true → b.descendsFrom a = false
  transitive : ∀ a ∈ handles, ∀ b ∈ handles, ∀ c ∈ handles, a.descendsFrom b = true →
    b.descendsFrom c = true → a.descendsFrom c = true

theorem Issued.genealogy {handles : List Handle} (issued : Issued handles) :
    Genealogy handles where
  identity _ ha _ hb h := issued.eq_of_serial_eq ha hb h
  predecessor parent hparent _ _ := ⟨issued.predecessor?_eq hparent rfl, rfl⟩
  passes handle hmem := by
    obtain ⟨passed, hpasses, hpassed, heq⟩ := issued.passes hmem
    refine ⟨passed, hpasses, fun _ hother => hpasses.unique hother, ?_, ?_⟩
    · rw [predecessors, ← heq, List.map_map]
      rfl
    · intro ancestor hancestor
      rw [descendsFrom_iff, ← heq, List.map_map, List.mem_map]
      constructor
      · rintro ⟨other, hother, hserial⟩
        rwa [← issued.eq_of_serial_eq (hpassed other hother) hancestor hserial]
      · exact fun h => ⟨ancestor, h, rfl⟩
  irreflexive _ hmem := issued.descendsFrom_irrefl hmem
  asymmetric _ ha _ hb h := issued.descendsFrom_asymm ha hb h
  transitive _ ha _ hb _ _ hab hbc := issued.descendsFrom_trans ha hb hab hbc

end Handle

namespace Pool

/-- The handles of a pool were issued one after the other, and their serials are used up. -/
structure Numbered (pool : Pool) : Prop where
  issued : Handle.Issued pool.handles
  used : ∀ handle ∈ pool.handles, ∃ number < pool.handles.length, handle.serial = .issued number

theorem numbered_empty : Numbered .empty :=
  ⟨.nil, nofun⟩

theorem Numbered.nextSerial_ne {pool : Pool} (h : pool.Numbered) :
    ∀ handle ∈ pool.handles, handle.serial ≠ pool.nextSerial := by
  intro handle hmem hserial
  obtain ⟨number, hnumber, hused⟩ := h.used handle hmem
  rw [hused, nextSerial, Serial.issued.injEq] at hserial
  omega

theorem Numbered.issue {pool : Pool} (h : pool.Numbered) (command : Command)
    {parent : Option Handle} (hparent : ∀ handle ∈ parent, handle ∈ pool.handles) :
    (pool.issue command parent).2.Numbered := by
  constructor
  case issued =>
    cases parent with
    | none => exact .root h.issued h.nextSerial_ne command
    | some parent => exact .derive h.issued (hparent parent rfl) h.nextSerial_ne command
  case used =>
    have hserial : (pool.issue command parent).1.serial = .issued pool.handles.length := by
      cases parent <;> rfl
    have hlength : (pool.issue command parent).2.handles.length = pool.handles.length + 1 :=
      List.length_append
    intro handle hmem
    rw [hlength]
    rcases Handle.mem_concat_cases hmem with hold | rfl
    · obtain ⟨number, hnumber, hused⟩ := h.used handle hold
      exact ⟨number, by omega, hused⟩
    · exact ⟨pool.handles.length, by omega, hserial⟩

end Pool

end SmartCard
