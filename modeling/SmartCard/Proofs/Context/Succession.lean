import SmartCard.Proofs.Command.Lineage
import SmartCard.Proofs.Context.Replay

/-!
# The commands of a context

A command takes the place of the current one only if it descends from it. Since descent is a strict
order, the commands that a context goes through descend from all that were current before, and none
of them comes back.
-/

namespace SmartCard

namespace Context

/-- The commands that are current one after the other when the records are applied. -/
def currents (context : Context) (records : List Record) : List Handle :=
  context.command :: records.filterMap (·.delta.command)

/-- The records can be applied up to one whose command does not descend from the current one. -/
def Strays (context : Context) (records : List Record) (violation : Violation) : Prop :=
  ∃ earlier entry later before command, records = earlier ++ entry :: later ∧
    context.replay earlier = .ok before ∧ entry.delta.command = some command ∧
    command.descendsFrom before.command = false ∧
    violation = ⟨entry.initiator, before.command.command, command.command⟩

/-- The commands that a context goes through descend from one another. -/
structure Succession (context : Context) (records : List Record) : Prop where
  current : ∀ earlier later, records = earlier ++ later → ∃ before,
    context.replay earlier = .ok before ∧
      (context.currents earlier).getLast? = some before.command
  descends : (context.currents records).Pairwise fun former later =>
    later.descendsFrom former = true
  /-- A command that was replaced does not become the current one again. -/
  once : ((context.currents records).map (·.serial)).Nodup

/-! ### One delta -/

theorem applyDelta_error_iff (context : Context) (initiator message : String) (delta : Delta)
    (violation : Violation) :
    context.applyDelta initiator message delta = .error violation ↔
      ∃ command, delta.command = some command ∧
        command.descendsFrom context.command = false ∧
        violation = ⟨initiator, context.command.command, command.command⟩ := by
  by_cases hempty : delta = .empty
  · subst hempty
    exact ⟨nofun, nofun⟩
  · rw [applyDelta, if_neg (mt delta.isEmpty_iff.mp hempty)]
    cases hcommand : delta.command with
    | none => exact ⟨nofun, nofun⟩
    | some command =>
      cases hdescends : command.descendsFrom context.command with
      | true => simp [hdescends]
      | false =>
        simp only [hdescends, Bool.false_eq_true, if_false, Except.error.injEq, Option.some.injEq,
          exists_eq_left', true_and]
        exact eq_comm

theorem command_of_applyDelta {context next : Context} {initiator message : String} {delta : Delta}
    (h : context.applyDelta initiator message delta = .ok next) :
    next.command = delta.command.getD context.command := by
  by_cases hempty : delta = .empty
  · subst hempty
    cases h
    rfl
  · rw [applyDelta_eq hempty h]
    rfl

/-- A command that a delta brings descends from the one that it replaces. -/
theorem descends_of_applyDelta {context next : Context} {initiator message : String}
    {delta : Delta} (h : context.applyDelta initiator message delta = .ok next) {command : Handle}
    (hcommand : delta.command = some command) :
    command.descendsFrom context.command = true := by
  by_contra hstray
  have hviolation := (applyDelta_error_iff context initiator message delta _).mpr
    ⟨command, hcommand, Bool.eq_false_iff.mpr hstray, rfl⟩
  rw [h] at hviolation
  cases hviolation

/-! ### Many deltas -/

theorem replay_append (context : Context) (earlier later : List Record) :
    context.replay (earlier ++ later) = context.replay earlier >>= (·.replay later) :=
  List.foldlM_append ..

theorem replay_cons (context : Context) (entry : Record) (rest : List Record) :
    context.replay (entry :: rest) =
      context.applyDelta entry.initiator entry.message entry.delta >>= (·.replay rest) := by
  rw [replay, List.foldlM_cons, apply_singleton]
  rfl

theorem replay_error_iff (context : Context) (records : List Record) (violation : Violation) :
    context.replay records = .error violation ↔ context.Strays records violation := by
  constructor
  · intro h
    induction records generalizing context with
    | nil => cases h
    | cons entry rest ih =>
      rw [replay_cons] at h
      cases hnext : context.applyDelta entry.initiator entry.message entry.delta with
      | error stray =>
        rw [hnext] at h
        cases h
        obtain ⟨command, hcommand⟩ := (applyDelta_error_iff ..).mp hnext
        exact ⟨[], entry, rest, context, command, rfl, rfl, hcommand⟩
      | ok next =>
        rw [hnext] at h
        obtain ⟨earlier, stray, later, before, command, rfl, hearlier, hcommand⟩ := ih next h
        have hbefore : context.replay (entry :: earlier) = .ok before := by
          rw [replay_cons, hnext]
          exact hearlier
        exact ⟨entry :: earlier, stray, later, before, command, rfl, hbefore, hcommand⟩
  · rintro ⟨earlier, entry, later, before, command, rfl, hearlier, hcommand⟩
    have hstray := (applyDelta_error_iff before entry.initiator entry.message entry.delta
      violation).mpr ⟨command, hcommand⟩
    rw [replay_append, hearlier]
    show before.replay (entry :: later) = .error violation
    rw [replay_cons, hstray]
    rfl

/-- The command that a replay ends with is the last one that it went through. -/
theorem getLast?_currents {context last : Context} {records : List Record}
    (h : context.replay records = .ok last) :
    (context.currents records).getLast? = some last.command := by
  rw [← replay_filter] at h
  have hlast := replay_eq (fun entry hmem => by simpa using (List.mem_filter.mp hmem).2) h
  have hcommands : (records.filter (·.delta ≠ .empty)).filterMap (·.delta.command) =
      records.filterMap (·.delta.command) := by
    rw [List.filterMap_filter]
    congr 1
    funext entry
    by_cases hempty : entry.delta = .empty
    · simp [hempty, Delta.empty]
    · simp [hempty]
  rw [hlast, command_foldl, hcommands, currents, List.getLast?_cons]

theorem currents_cons {context next : Context} {entry : Record} (rest : List Record)
    (h : context.applyDelta entry.initiator entry.message entry.delta = .ok next) :
    context.currents (entry :: rest) = next.currents rest ∨
      context.currents (entry :: rest) = context.command :: next.currents rest ∧
        next.command.descendsFrom context.command = true := by
  have hnext := command_of_applyDelta h
  cases hcommand : entry.delta.command with
  | none =>
    rw [hcommand, Option.getD_none] at hnext
    exact .inl (by simp [currents, hcommand, hnext])
  | some command =>
    rw [hcommand, Option.getD_some] at hnext
    subst hnext
    exact .inr ⟨by simp [currents, hcommand], descends_of_applyDelta h hcommand⟩

section

variable {handles : List Handle}

/-- What descends from the current command descends from those before it as well. -/
theorem pairwise_currents (issued : Handle.Issued handles) {context last : Context}
    {records : List Record} (h : context.replay records = .ok last)
    (hmem : ∀ handle ∈ context.currents records, handle ∈ handles) :
    (context.currents records).Pairwise fun former later =>
      later.descendsFrom former = true := by
  induction records generalizing context with
  | nil => exact List.pairwise_singleton ..
  | cons entry rest ih =>
    rw [replay_cons] at h
    obtain ⟨next, hnext, h⟩ := exists_of_bind_eq_ok h
    rcases currents_cons rest hnext with hcurrents | ⟨hcurrents, hdescends⟩
    · rw [hcurrents] at hmem ⊢
      exact ih h hmem
    · rw [hcurrents] at hmem ⊢
      obtain ⟨hcontext, hrest⟩ := List.forall_mem_cons.mp hmem
      have hpairwise := ih h hrest
      have hcurrent : next.command ∈ handles := hrest next.command List.mem_cons_self
      refine List.pairwise_cons.mpr ⟨?_, hpairwise⟩
      intro later hlater
      rcases List.mem_cons.mp hlater with rfl | hbrought
      · exact hdescends
      · have hfrom := (List.pairwise_cons.mp hpairwise).1 later hbrought
        exact issued.descendsFrom_trans (hrest later hlater) hcurrent hfrom hdescends

theorem succession_of_replay (issued : Handle.Issued handles) {context last : Context}
    {records : List Record} (h : context.replay records = .ok last)
    (hmem : ∀ handle ∈ context.currents records, handle ∈ handles) :
    context.Succession records where
  current := by
    rintro earlier later rfl
    rw [replay_append] at h
    obtain ⟨before, hearlier, _⟩ := exists_of_bind_eq_ok h
    exact ⟨before, hearlier, getLast?_currents hearlier⟩
  descends := pairwise_currents issued h hmem
  once := by
    rw [List.Nodup, List.pairwise_map]
    refine (pairwise_currents issued h hmem).imp_of_mem ?_
    intro former later hformer hlater hdescends hserial
    have hsame := issued.eq_of_serial_eq (hmem former hformer) (hmem later hlater) hserial
    rw [hsame, issued.descendsFrom_irrefl (hmem later hlater)] at hdescends
    cases hdescends

/-- Handles are ordered by descent, a context turns down exactly the commands that do not descend
from the current one, and those that it takes descend from all before. -/
theorem lineage_of_issued (issued : Handle.Issued handles) :
    Handle.Genealogy handles ∧ ∀ (context : Context) (changes : List Change),
      (∀ violation, context.changeAll changes = .error violation ↔
        context.Strays (changes.flatMap Change.given) violation) ∧
      ∀ after, context.changeAll changes = .ok after →
        (∀ handle ∈ context.currents (changes.flatMap Change.given), handle ∈ handles) →
          context.Succession (changes.flatMap Change.given) := by
  refine ⟨issued.genealogy, ?_⟩
  intro context changes
  rw [changeAll_eq_replay, recorded, replay_filter]
  exact ⟨replay_error_iff context _, fun after h => succession_of_replay issued h⟩

end

/-! ### Commands written alike -/

/-- A protected command, another one written like it, and two commands behind the first one. -/
def sharing : Pool :=
  let outer := Pool.empty.issue protectedCommand.command none
  let copy := outer.2.issue protectedCommand.command none
  let inner := copy.2.issue plainCommand.command (some outer.1)
  (inner.2.issue plainCommand.command (some inner.1)).2

theorem numbered_sharing : sharing.Numbered := by
  refine .issue (.issue (.issue (.issue Pool.numbered_empty _ ?_) _ ?_) _ ?_) _ ?_
  all_goals decide

def unwrapTwice (inner innermost : Handle) : List Change :=
  [.apply "sm" "unwrapped" [.ofCommand inner, .empty, .ofCommand innermost]]

theorem lineage_of_issued_sharing : ∃ outer copy inner innermost,
    sharing.handles = [outer, copy, inner, innermost] ∧ copy.looksLike outer = true ∧
      Handle.Genealogy [outer, copy, inner, innermost] ∧
      (start copy).changeAll (unwrapTwice inner innermost) =
        .error ⟨"sm", protectedCommand.command, plainCommand.command⟩ ∧
      (start outer).Succession ((unwrapTwice inner innermost).flatMap Change.given) ∧
      (start outer).currents ((unwrapTwice inner innermost).flatMap Change.given) =
        [outer, inner, innermost] := by
  refine ⟨_, _, _, _, rfl, by decide, ?_⟩
  obtain ⟨hgenealogy, hchange⟩ := lineage_of_issued numbered_sharing.issued
  refine ⟨hgenealogy, ?_, ?_, rfl⟩
  · refine ((hchange _ _).1 _).mpr ?_
    exact ⟨[], _, _, _, _, rfl, rfl, rfl, by decide, rfl⟩
  · exact (hchange _ _).2 _ rfl (by decide)

end Context

end SmartCard
