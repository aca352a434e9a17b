import SmartCard.Context.Basic

/-!
# Contexts and their histories

Whatever changes a context leaves a record, so a context can be read off its history: the command
and the response are the last recorded ones, what was announced is what was recorded under its own
kind, and applying the history to a fresh context gives the same context again.
-/

namespace SmartCard

/-- A sequence of two computations gives a result only by way of a result of the first one. -/
theorem exists_of_bind_eq_ok {α β ε : Type} {first : Except ε α} {second : α → Except ε β} {b : β}
    (h : first >>= second = .ok b) : ∃ a, first = .ok a ∧ second a = .ok b := by
  cases first with
  | error error => cases h
  | ok a => exact ⟨a, rfl, h⟩

theorem Delta.isEmpty_iff (delta : Delta) : delta.isEmpty = true ↔ delta = .empty := by
  obtain ⟨_ | command, _ | response, _ | ⟨first, rest⟩⟩ := delta <;> simp [isEmpty, empty]

namespace Context

/-- A call that changes a context. -/
inductive Change where
  | apply (initiator message : String) (deltas : List Delta)
  | respond (initiator message : String) (response : Response)
  | propagate (initiator message : String) (propagation : Propagation)

namespace Change

/-- The deltas that a call gives, with who gives them and why. -/
def given : Change → List Record
  | apply initiator message deltas => deltas.map (⟨initiator, message, ·⟩)
  | respond initiator message response => [⟨initiator, message, .ofResponse response⟩]
  | propagate initiator message propagation =>
    [⟨initiator, message, Delta.empty.propagate propagation⟩]

end Change

def change (context : Context) : Change → Except Violation Context
  | .apply initiator message deltas => context.apply initiator message deltas
  | .respond initiator message response => .ok (context.respond initiator message response)
  | .propagate initiator message propagation =>
    .ok (context.propagate initiator message propagation)

/-- Makes the calls one after the other. -/
def changeAll (context : Context) (changes : List Change) : Except Violation Context :=
  changes.foldlM change context

/-- Applies recorded deltas one after the other. -/
def replay (context : Context) (records : List Record) : Except Violation Context :=
  records.foldlM (fun context entry => context.apply entry.initiator entry.message [entry.delta])
    context

/-- The deltas of calls that have something in them. -/
def recorded (changes : List Change) : List Record :=
  (changes.flatMap Change.given).filter (·.delta ≠ .empty)

/-! ### Calls as replays -/

theorem apply_singleton (context : Context) (initiator message : String) (delta : Delta) :
    context.apply initiator message [delta] = context.applyDelta initiator message delta := by
  rw [apply]
  cases context.applyDelta initiator message delta <;> rfl

theorem apply_empty (context : Context) (initiator message : String) :
    context.apply initiator message [.empty] = .ok context := rfl

theorem apply_eq_replay (context : Context) (initiator message : String) (deltas : List Delta) :
    context.apply initiator message deltas =
      context.replay (deltas.map (⟨initiator, message, ·⟩)) := by
  induction deltas generalizing context with
  | nil => rfl
  | cons delta rest ih =>
    rw [apply, List.map_cons, replay, List.foldlM_cons, apply_singleton]
    cases context.applyDelta initiator message delta with
    | error violation => rfl
    | ok next => exact ih next

theorem change_eq_replay (context : Context) (change : Change) :
    context.change change = context.replay change.given := by
  cases change with
  | apply initiator message deltas => exact apply_eq_replay context initiator message deltas
  | respond initiator message response => rfl
  | propagate initiator message propagation => rfl

/-- Empty deltas can be left out of a replay. -/
theorem replay_filter (context : Context) (records : List Record) :
    context.replay (records.filter (·.delta ≠ .empty)) = context.replay records := by
  unfold replay
  rw [List.foldlM_filter]
  congr 1
  funext context entry
  by_cases hempty : entry.delta = .empty
  · simp [hempty, apply_empty, pure, Except.pure]
  · simp [hempty]

theorem changeAll_eq_replay (context : Context) (changes : List Change) :
    context.changeAll changes = context.replay (recorded changes) := by
  rw [recorded, replay_filter]
  induction changes generalizing context with
  | nil => rfl
  | cons first rest ih =>
    unfold changeAll at ih ⊢
    unfold replay at ih ⊢
    rw [List.foldlM_cons, List.flatMap_cons, List.foldlM_append, change_eq_replay]
    congr 1
    funext next
    exact ih next

/-! ### What a replay leads to -/

theorem applyDelta_eq {context next : Context} {initiator message : String} {delta : Delta}
    (hdelta : delta ≠ .empty) (h : context.applyDelta initiator message delta = .ok next) :
    next = context.record ⟨initiator, message, delta⟩ := by
  unfold applyDelta at h
  rw [if_neg (mt delta.isEmpty_iff.mp hdelta)] at h
  split at h
  · split at h <;> cases h
    rfl
  · cases h
    rfl

/-- A replay takes over what each of the records holds. -/
theorem replay_eq {context last : Context} {records : List Record}
    (hrecords : ∀ entry ∈ records, entry.delta ≠ .empty)
    (h : context.replay records = .ok last) : last = records.foldl record context := by
  induction records generalizing context with
  | nil =>
    cases h
    rfl
  | cons entry rest ih =>
    obtain ⟨hentry, hrest⟩ := List.forall_mem_cons.mp hrecords
    rw [replay, List.foldlM_cons, apply_singleton] at h
    obtain ⟨next, hnext, hlast⟩ := exists_of_bind_eq_ok h
    rw [List.foldl_cons, ← applyDelta_eq hentry hnext]
    exact ih hrest hlast

section

variable (context : Context) (records : List Record)

theorem history_foldl : (records.foldl record context).history = context.history ++ records := by
  induction records generalizing context with
  | nil => simp
  | cons entry rest ih => simp [ih, record]

theorem command_foldl :
    (records.foldl record context).command =
      ((records.filterMap (·.delta.command)).getLast?).getD context.command := by
  induction records generalizing context with
  | nil => rfl
  | cons entry rest ih =>
    rw [List.foldl_cons, ih]
    cases hcommand : entry.delta.command with
    | none => simp [record, hcommand]
    | some command => simp [record, hcommand, List.getLast?_cons]

theorem response_foldl :
    (records.foldl record context).response =
      ((records.filterMap (·.delta.response)).getLast?).or context.response := by
  induction records generalizing context with
  | nil => rfl
  | cons entry rest ih =>
    rw [List.foldl_cons, ih]
    cases hresponse : entry.delta.response with
    | none => simp [record, hresponse]
    | some response => simp [record, hresponse, List.getLast?_cons]

theorem announced_foldl :
    (records.foldl record context).announced =
      context.announced ++ records.flatMap (·.delta.accepted) := by
  induction records generalizing context with
  | nil => simp
  | cons entry rest ih => simp [ih, record]

end

/-- A replay from a fresh context leads to what its records hold. -/
theorem replay_start {command : Handle} {context : Context} {records : List Record}
    (hrecords : ∀ entry ∈ records, entry.delta ≠ .empty)
    (h : (start command).replay records = .ok context) :
    context = ⟨((records.filterMap (·.delta.command)).getLast?).getD command,
      (records.filterMap (·.delta.response)).getLast?, records.flatMap (·.delta.accepted),
      records⟩ := by
  have hcontext := replay_eq hrecords h
  have hcommand := command_foldl (start command) records
  have hresponse := response_foldl (start command) records
  have hannounced := announced_foldl (start command) records
  have hhistory := history_foldl (start command) records
  rw [← hcontext] at hcommand hresponse hannounced hhistory
  cases context
  simp_all [start]

theorem delta_ne_empty_of_mem_recorded {changes : List Change} :
    ∀ entry ∈ recorded changes, entry.delta ≠ .empty := by
  intro entry hmem
  simpa using (List.mem_filter.mp hmem).2

/-- What is kept under a kind was declared under it and is of it. -/
theorem propagations_eq {context : Context} (records : List Record)
    (hannounced : context.announced = records.flatMap (·.delta.accepted))
    (kind : Propagation.Kind) :
    context.propagations kind =
      (records.flatMap (·.delta.propagations)).filterMap fun (declared, propagation) =>
        if declared = kind ∧ propagation.kind = kind then some propagation else none := by
  rw [propagations, hannounced, List.filter_flatMap, List.filterMap_flatMap]
  congr 1
  funext entry
  rw [Delta.accepted, List.filter_filterMap]
  congr 1
  funext ⟨declared, propagation⟩
  by_cases hdeclared : propagation.kind = declared
  · subst hdeclared
    by_cases hkind : propagation.kind = kind <;> simp [hkind]
  · by_cases hkind : propagation.kind = kind
    · have hother : declared ≠ kind := by
        intro hsame
        exact hdeclared (hkind.trans hsame.symm)
      simp [hdeclared, hother]
    · simp [hdeclared, hkind]

/-- A response stays or is replaced by another one, but it never goes away. -/
theorem response_ne_none_of_changeAll {before after : Context} {changes : List Change}
    (h : before.changeAll changes = .ok after) (hbefore : before.response ≠ none) :
    after.response ≠ none := by
  rw [changeAll_eq_replay] at h
  rw [replay_eq delta_ne_empty_of_mem_recorded h, response_foldl]
  cases ((recorded changes).filterMap (·.delta.response)).getLast? with
  | none => exact hbefore
  | some response => exact nofun

theorem exists_of_changeAll_append {before after : Context} {earlier later : List Change}
    (h : before.changeAll (earlier ++ later) = .ok after) :
    ∃ between, before.changeAll earlier = .ok between ∧ between.changeAll later = .ok after := by
  unfold changeAll at h
  rw [List.foldlM_append] at h
  exact exists_of_bind_eq_ok h

/-- A context is the replay of its history, and the history holds what the calls gave. -/
theorem eq_replay_history (command : Handle) (changes : List Change) (context : Context)
    (h : (start command).changeAll changes = .ok context) :
    context.history = (changes.flatMap Change.given).filter (·.delta ≠ .empty) ∧
      context.command =
        ((context.history.filterMap (·.delta.command)).getLast?).getD command ∧
      context.response = (context.history.filterMap (·.delta.response)).getLast? ∧
      (∀ earlier later, changes = earlier ++ later → ∃ between,
        (start command).changeAll earlier = .ok between ∧
          (between.response ≠ none → context.response ≠ none)) ∧
      (∀ kind, context.propagations kind =
        (context.history.flatMap (·.delta.propagations)).filterMap fun (declared, propagation) =>
          if declared = kind ∧ propagation.kind = kind then some propagation else none) ∧
      (start command).replay context.history = .ok context := by
  have hreplay := h
  rw [changeAll_eq_replay] at hreplay
  have hcontext := replay_start delta_ne_empty_of_mem_recorded hreplay
  have hhistory : context.history = recorded changes := by rw [hcontext]
  rw [hhistory]
  refine ⟨rfl, by rw [hcontext], by rw [hcontext], ?_, ?_, hreplay⟩
  · intro earlier later hsplit
    rw [hsplit] at h
    obtain ⟨between, hearlier, hlater⟩ := exists_of_changeAll_append h
    exact ⟨between, hearlier, response_ne_none_of_changeAll hlater⟩
  · exact propagations_eq (recorded changes) (by rw [hcontext])

/-! ### A command that is unwrapped -/

def protectedCommand : Handle :=
  .root (.received 0) ⟨0x0C, 0x22, 0xC1, 0xA4, [0x87, 0x01, 0x01], none, false⟩

def plainCommand : Handle :=
  protectedCommand.derive (.issued 0) ⟨0x00, 0x22, 0xC1, 0xA4, [0x83, 0x01, 0x02], none, false⟩

/-- Takes the protection off, with an empty delta beside it and an announcement that is declared
wrongly, and answers. -/
def unwrapping : List Change :=
  [.apply "sm" "unwrapped" [.empty, (Delta.ofCommand plainCommand).propagateAs .secureMessaging
      (.event .secureMessagingEstablished)],
    .propagate "sm" "established" (.event .secureMessagingEstablished),
    .respond "sm" "done" (.ofStatus .success)]

theorem eq_replay_history_unwrapping :
    ∃ context, (start protectedCommand).changeAll unwrapping = .ok context ∧
      context.command = plainCommand ∧ context.history.length = 3 ∧
      context.propagations .secureMessaging = [] ∧
      context.propagations .securityEvent = [.event .secureMessagingEstablished] ∧
      (start protectedCommand).replay context.history = .ok context := by
  refine ⟨_, rfl, ?_⟩
  obtain ⟨hhistory, hcommand, _, _, hpropagations, hreplay⟩ :=
    eq_replay_history protectedCommand unwrapping _ rfl
  exact ⟨rfl, rfl, hpropagations .secureMessaging, hpropagations .securityEvent, hreplay⟩

end Context

end SmartCard
