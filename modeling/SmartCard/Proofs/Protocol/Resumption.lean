import Mathlib.Data.List.DropRight
import SmartCard.Proofs.Protocol.Calls

/-!
# Leaving and resuming modes

What an engine does over many commands is a list of events: calls of the transition hook, moves,
resets, and the loss of the stored states. Where the protocol keeps the history of a mode, an entry
action of that mode is given the state in which the mode was left last, be it by a move or by a
reset; the stored states are what the events since they were lost last say.
-/

namespace SmartCard

namespace Engine

variable {S M σ W : Type}

/-- A call of a function of an engine, with the persistent state at that time. -/
inductive Input (W : Type) where
  | process (world : W) (context : Context)
  | reset (world : W)
  | resetHistory

/-- Something that happens to an engine. -/
inductive Event (S M σ W : Type) where
  | called (round : Round S M σ W)
  | moved (move : Move S M σ W)
  | reset (before after : Engine S M σ)
  | forgotten

namespace Event

def calls : Event S M σ W → List (Call S)
  | called round => [.transition round.before.engine.state round.reply.value]
  | moved move => move.calls
  | reset _ _ => [.reset]
  | forgotten => []

/-- The state that an event leads to, unless the state stays. -/
def state? : Event S M σ W → Option S
  | called _ => none
  | moved move => some move.after.engine.state
  | reset _ after => some after.state
  | forgotten => none

def isForgotten : Event S M σ W → Bool
  | forgotten => true
  | _ => false

variable [DecidableEq M] (mode : S → M)

/-- The state that an event leaves, by a move to another mode or by a reset. -/
def left? : Event S M σ W → Option S
  | called _ => none
  | moved move =>
    if mode move.chosen = mode move.before.engine.state then none
    else some move.before.engine.state
  | reset before _ => some before.state
  | forgotten => none

end Event

/-- The state that an engine is in after events. -/
def current (initial : S) (past : List (Event S M σ W)) : S :=
  ((past.filterMap Event.state?).getLast?).getD initial

theorem current_concat (initial : S) (past : List (Event S M σ W)) (event : Event S M σ W) :
    current initial (past ++ [event]) = event.state?.getD (current initial past) := by
  unfold current
  rw [List.filterMap_append]
  cases hstate : event.state? with
  | none => simp [hstate]
  | some state => simp [hstate]

def Round.events (round : Round S M σ W) : List (Event S M σ W) :=
  .called round :: round.move.toList.map .moved

def eventsOf (rounds : List (Round S M σ W)) (move : Option (Move S M σ W)) :
    List (Event S M σ W) :=
  rounds.flatMap Round.events ++ move.toList.map .moved

/-- No call of the transition hook waits for the move to the state that it gave. -/
def Answered (past : List (Event S M σ W)) : Prop :=
  ∀ round next, past.getLast? = some (.called round) → round.reply.value ≠ .ok (some next)

@[simp] theorem answered_concat {past : List (Event S M σ W)} {event : Event S M σ W} :
    Answered (past ++ [event]) ↔
      ∀ round next, event = .called round → round.reply.value ≠ .ok (some next) := by
  simp [Answered]

theorem answered_moved (past : List (Event S M σ W)) (move : Move S M σ W) :
    Answered (past ++ [.moved move]) := by
  simp

theorem calls_eventsOf (rounds : List (Round S M σ W)) (move : Option (Move S M σ W)) :
    (eventsOf rounds move).flatMap Event.calls = callsOf rounds move := by
  have hmoves : ∀ move : Option (Move S M σ W),
      (move.toList.map Event.moved).flatMap Event.calls = move.toList.flatMap Move.calls := by
    intro move
    rw [List.flatMap_map]
    rfl
  rw [eventsOf, callsOf, List.flatMap_append, hmoves, List.flatMap_assoc]
  congr 2
  funext round
  rw [Round.events, List.flatMap_cons, hmoves]
  rfl

variable [DecidableEq M]

/-- The state in which a mode was left last, since the stored states were lost last. -/
def lastLeft (mode : S → M) (past : List (Event S M σ W)) (left : M) : Option S :=
  (((past.rtakeWhile (!·.isForgotten)).filterMap (Event.left? mode)).filter
    (mode · = left)).getLast?

variable (protocol : Protocol S M σ W) (keeps : M → Bool)

/-- The state that is to be entered on the way to `chosen` after events. -/
def resumed (past : List (Event S M σ W)) (chosen : S) : S :=
  if keeps (protocol.mode chosen) then
    (lastLeft protocol.mode past (protocol.mode chosen)).getD chosen
  else
    chosen

/-- What a move is to lead to was given by the transition hook in the call before it, or no call
waits for its move and it is the error state. -/
def Chosen (past : List (Event S M σ W)) (move : Move S M σ W) : Prop :=
  (∃ round, past.getLast? = some (.called round) ∧ round.reply.value = .ok (some move.chosen)) ∨
    Answered past ∧ move.chosen = protocol.errorState move.before.engine.data

/-- An event as it is to be after others. -/
inductive Event.Lawful (past : List (Event S M σ W)) : Event S M σ W → Prop
  | called {round : Round S M σ W}
      (hstate : round.before.engine.state = current protocol.initial past) :
      Lawful past (.called round)
  | within {move : Move S M σ W}
      (hstate : move.before.engine.state = current protocol.initial past)
      (hchosen : Chosen protocol past move)
      (hmode : protocol.mode move.chosen = protocol.mode move.before.engine.state)
      (hentry : move.entry = none) (hafter : move.after.engine.state = move.chosen) :
      Lawful past (.moved move)
  | across {move : Move S M σ W} {reply : Reply σ W S}
      (hstate : move.before.engine.state = current protocol.initial past)
      (hchosen : Chosen protocol past move)
      (hmode : protocol.mode move.chosen ≠ protocol.mode move.before.engine.state)
      (hentry : move.entry = some ⟨resumed protocol keeps past move.chosen, reply⟩)
      (hafter : move.after.engine.state = reply.value) :
      Lawful past (.moved move)
  | reset {before after : Engine S M σ} (hstate : before.state = current protocol.initial past)
      (hafter : after.state = protocol.initial)
      (hhistory : ∀ mode, keeps mode = true → after.history.lookup mode =
        if protocol.mode before.state = mode then some before.state
        else before.history.lookup mode) :
      Lawful past (.reset before after)
  | forgotten : Lawful past .forgotten

/-- Events that follow others, each as it is to be after those before it. -/
def AllLawful (past : List (Event S M σ W)) : List (Event S M σ W) → Prop
  | [] => True
  | event :: rest => event.Lawful protocol keeps past ∧ AllLawful (past ++ [event]) rest

/-- The state and the stored states of an engine, as events say. -/
structure Kept (past : List (Event S M σ W)) (engine : Engine S M σ) : Prop where
  state : engine.state = current protocol.initial past
  history : ∀ mode, keeps mode = true →
    engine.history.lookup mode = lastLeft protocol.mode past mode

/-- An engine between rounds or commands. -/
structure Rests (past : List (Event S M σ W)) (engine : Engine S M σ) : Prop
    extends Kept protocol keeps past engine where
  answered : Answered past

def handle (engine : Engine S M σ) : Input W → Except Violation (Engine S M σ)
  | .process world context => (process protocol engine world context).map (·.1)
  | .reset world => .ok (reset protocol engine world).1
  | .resetHistory => .ok engine.resetHistory

def handleAll (engine : Engine S M σ) (inputs : List (Input W)) :
    Except Violation (Engine S M σ) :=
  inputs.foldlM (handle protocol) engine

/-- The events that inputs bring about, and the result. -/
inductive Traces : Engine S M σ → List (Input W) → List (Event S M σ W) →
    Except Violation (Engine S M σ) → Prop
  | nil {engine : Engine S M σ} : Traces engine [] [] (.ok engine)
  | process {engine : Engine S M σ} {world : W} {context : Context} {inputs : List (Input W)}
      {rounds : List (Round S M σ W)} {move : Option (Move S M σ W)} {run : Run S M σ W}
      {events : List (Event S M σ W)} {result : Except Violation (Engine S M σ)}
      (hrounds : Dispatches protocol (protocol.name engine.data) engine.maxTransitions
        ⟨engine, world, context, false⟩ rounds move (.ok run))
      (hrest : Traces run.engine inputs events result) :
      Traces engine (.process world context :: inputs) (eventsOf rounds move ++ events) result
  | broken {engine : Engine S M σ} {world : W} {context : Context} {inputs : List (Input W)}
      {rounds : List (Round S M σ W)} {move : Option (Move S M σ W)} {violation : Violation}
      (hrounds : Dispatches protocol (protocol.name engine.data) engine.maxTransitions
        ⟨engine, world, context, false⟩ rounds move (.error violation)) :
      Traces engine (.process world context :: inputs) (eventsOf rounds move) (.error violation)
  | reset {engine : Engine S M σ} {world : W} {inputs : List (Input W)}
      {events : List (Event S M σ W)} {result : Except Violation (Engine S M σ)}
      (hrest : Traces (engine.reset protocol world).1 inputs events result) :
      Traces engine (.reset world :: inputs)
        (.reset engine (engine.reset protocol world).1 :: events) result
  | resetHistory {engine : Engine S M σ} {inputs : List (Input W)}
      {events : List (Event S M σ W)} {result : Except Violation (Engine S M σ)}
      (hrest : Traces engine.resetHistory inputs events result) :
      Traces engine (.resetHistory :: inputs) (.forgotten :: events) result

variable {protocol keeps}

/-! ### What a further event changes -/

theorem lastLeft_concat (mode : S → M) (past : List (Event S M σ W)) {event : Event S M σ W}
    (hevent : event.isForgotten = false) (left : M) :
    lastLeft mode (past ++ [event]) left =
      ((event.left? mode).filter (mode · = left)).or (lastLeft mode past left) := by
  unfold lastLeft
  rw [List.rtakeWhile_concat_pos _ _ _ (by simp [hevent]), List.filterMap_append,
    List.filter_append, List.getLast?_append]
  congr 1
  cases hleft : event.left? mode with
  | none => simp [hleft]
  | some state => by_cases hmode : mode state = left <;> simp [hleft, hmode, Option.filter_some]

theorem lastLeft_forgotten (mode : S → M) (past : List (Event S M σ W)) (left : M) :
    lastLeft mode (past ++ [.forgotten]) left = none := by
  unfold lastLeft
  rw [List.rtakeWhile_concat_neg _ _ _ (by simp [Event.isForgotten])]
  rfl

theorem allLawful_append {past events later : List (Event S M σ W)} :
    AllLawful protocol keeps past (events ++ later) ↔
      AllLawful protocol keeps past events ∧ AllLawful protocol keeps (past ++ events) later := by
  induction events generalizing past with
  | nil => simp [AllLawful]
  | cons event rest ih => simp [AllLawful, ih, and_assoc]

theorem AllLawful.lawful {past events : List (Event S M σ W)}
    (h : AllLawful protocol keeps past events) :
    ∀ earlier event later, events = earlier ++ event :: later →
      event.Lawful protocol keeps (past ++ earlier) := by
  intro earlier event later hsplit
  rw [hsplit, allLawful_append] at h
  exact h.2.1

/-! ### The stored states -/

theorem lookup_filter_ne (history : List (M × S)) {left mode : M} (hmode : mode ≠ left) :
    (history.filter (·.1 ≠ left)).lookup mode = history.lookup mode := by
  induction history with
  | nil => rfl
  | cons stored rest ih =>
    obtain ⟨key, state⟩ := stored
    by_cases hkey : key = left
    · subst hkey
      have hother : (mode == key) = false := beq_false_of_ne hmode
      simp only [List.lookup_cons, hother]
      simpa using ih
    · simp only [ne_eq, hkey, not_false_eq_true, decide_true, List.filter_cons_of_pos,
        List.lookup_cons]
      cases mode == key with
      | true => rfl
      | false => exact ih

section

variable (hkeeps : ∀ data state, protocol.keepsHistory data state = keeps (protocol.mode state))
include hkeeps

theorem lookup_remember (data : σ) (history : List (M × S)) (state : S) {mode : M}
    (hmode : keeps mode = true) :
    (remember protocol data history state).lookup mode =
      if protocol.mode state = mode then some state else history.lookup mode := by
  unfold remember
  rw [hkeeps]
  by_cases hleft : protocol.mode state = mode
  · subst hleft
    rw [if_pos hmode, if_pos rfl, List.lookup_cons, beq_self_eq_true]
  · rw [if_neg hleft]
    split
    · have hother : (mode == protocol.mode state) = false := beq_false_of_ne (Ne.symm hleft)
      rw [List.lookup_cons, hother]
      exact lookup_filter_ne history (Ne.symm hleft)
    · rfl

theorem target_eq_resumed {past : List (Event S M σ W)} {run : Run S M σ W} {chosen : S}
    (hpast : Kept protocol keeps past run.engine)
    (hmode : protocol.mode chosen ≠ protocol.mode run.engine.state) :
    target protocol run chosen = resumed protocol keeps past chosen := by
  unfold target resume resumed
  rw [hkeeps]
  by_cases hkept : keeps (protocol.mode chosen) = true
  · rw [if_pos hkept, if_pos hkept]
    unfold leaving
    -- The state that is left now is stored under its own mode, which is not the one to enter.
    rw [lookup_remember hkeeps _ _ _ hkept, if_neg (Ne.symm hmode), hpast.history _ hkept]
  · rw [if_neg hkept, if_neg hkept]

/-- An engine that has left its state stores it. -/
theorem Kept.leave {past : List (Event S M σ W)} {event : Event S M σ W}
    {before after : Engine S M σ} (hpast : Kept protocol keeps past before)
    (hevent : event.isForgotten = false) (hleft : event.left? protocol.mode = some before.state)
    (hstate : event.state? = some after.state)
    (hhistory : after.history = remember protocol before.data before.history before.state) :
    Kept protocol keeps (past ++ [event]) after := by
  refine ⟨?_, ?_⟩
  · rw [current_concat, hstate, Option.getD_some]
  · intro mode hmode
    rw [hhistory, lookup_remember hkeeps _ _ _ hmode, lastLeft_concat _ _ hevent, hleft,
      hpast.history mode hmode]
    by_cases hsame : protocol.mode before.state = mode <;> simp [hsame, Option.filter_some]

/-! ### One event -/

theorem Moves.lawful {name : String} {past : List (Event S M σ W)} {move : Move S M σ W}
    (h : Moves protocol name move) (hpast : Kept protocol keeps past move.before.engine)
    (hchosen : Chosen protocol past move) :
    Event.Lawful protocol keeps past (.moved move) := by
  cases h with
  | within hmode => exact .within hpast.state hchosen hmode rfl rfl
  | across hmode henter =>
    have htarget := target_eq_resumed hkeeps hpast hmode
    exact .across hpast.state hchosen hmode (by rw [htarget]) rfl

theorem Moves.kept {name : String} {past : List (Event S M σ W)} {move : Move S M σ W}
    (h : Moves protocol name move) (hpast : Kept protocol keeps past move.before.engine) :
    Kept protocol keeps (past ++ [.moved move]) move.after.engine := by
  cases h with
  | within hmode =>
    refine ⟨?_, ?_⟩
    · rw [current_concat]
      rfl
    · intro mode hkept
      rw [lastLeft_concat _ _ rfl, Event.left?, if_pos hmode]
      exact hpast.history mode hkept
  | across hmode henter => exact hpast.leave hkeeps rfl (if_neg hmode) rfl rfl

theorem Kept.reset {past : List (Event S M σ W)} {engine : Engine S M σ}
    (hpast : Kept protocol keeps past engine) (world : W) :
    Kept protocol keeps (past ++ [.reset engine (engine.reset protocol world).1])
      (engine.reset protocol world).1 :=
  hpast.leave hkeeps rfl rfl rfl rfl

end

theorem Kept.called {past : List (Event S M σ W)} {round : Round S M σ W} {engine : Engine S M σ}
    (hpast : Kept protocol keeps past round.before.engine)
    (hstate : engine.state = round.before.engine.state)
    (hhistory : engine.history = round.before.engine.history) :
    Kept protocol keeps (past ++ [.called round]) engine := by
  refine ⟨?_, ?_⟩
  · rw [hstate, hpast.state, current_concat]
    rfl
  · intro mode hmode
    rw [hhistory, hpast.history mode hmode, lastLeft_concat _ _ rfl]
    rfl

theorem Kept.forgotten {past : List (Event S M σ W)} {engine : Engine S M σ}
    (hpast : Kept protocol keeps past engine) :
    Kept protocol keeps (past ++ [.forgotten]) engine.resetHistory := by
  refine ⟨?_, ?_⟩
  · rw [current_concat]
    exact hpast.state
  · intro mode hmode
    rw [lastLeft_forgotten]
    rfl

/-! ### One command -/

section

variable (hkeeps : ∀ data state, protocol.keepsHistory data state = keeps (protocol.mode state))
include hkeeps

theorem Moves.after_call {name : String} {past : List (Event S M σ W)} {round : Round S M σ W}
    {move : Move S M σ W} (h : Moves protocol name move) (hmove : round.move = some move)
    (hpast : Kept protocol keeps past round.before.engine)
    (hsettled : Kept protocol keeps (past ++ [.called round]) move.before.engine)
    (hchosen : Chosen protocol (past ++ [.called round]) move) :
    AllLawful protocol keeps past round.events ∧
      Rests protocol keeps (past ++ round.events) move.after.engine := by
  have hevents : round.events = [.called round, .moved move] := by
    rw [Round.events, hmove]
    rfl
  rw [hevents]
  refine ⟨⟨.called hpast.state, h.lawful hkeeps hsettled hchosen, trivial⟩, ?_⟩
  rw [List.append_cons]
  exact ⟨h.kept hkeeps hsettled, answered_moved _ move⟩

theorem Round.Made.lawful {name : String} {past : List (Event S M σ W)} {round : Round S M σ W}
    (h : round.Made protocol name) (hpast : Kept protocol keeps past round.before.engine) :
    AllLawful protocol keeps past round.events ∧
      Rests protocol keeps (past ++ round.events) round.after.engine := by
  have hanswered (hvalue : ∀ next, round.reply.value ≠ .ok (some next)) :
      Answered (past ++ [.called round]) := by
    apply answered_concat.mpr
    rintro other next ⟨⟩
    exact hvalue next
  cases h with
  | moved hcall hvalue hmoves =>
    exact hmoves.after_call hkeeps rfl hpast (hpast.called rfl rfl)
      (.inl ⟨_, List.getLast?_concat, hvalue⟩)
  | failed hcall hvalue hfailed hmoves =>
    exact hmoves.after_call hkeeps rfl hpast (hpast.called rfl rfl) (.inr ⟨hanswered hvalue, rfl⟩)
  | unmoved hcall hvalue hfailed =>
    exact ⟨⟨.called hpast.state, trivial⟩, hpast.called rfl rfl, hanswered hvalue⟩

theorem Dispatches.lawful {name : String} {limit : Nat} {past : List (Event S M σ W)}
    {run : Run S M σ W} {rounds : List (Round S M σ W)} {move : Option (Move S M σ W)}
    {result : Except Violation (Run S M σ W)}
    (h : Dispatches protocol name limit run rounds move result)
    (hpast : Rests protocol keeps past run.engine) :
    AllLawful protocol keeps past (eventsOf rounds move) ∧ ∀ last, result = .ok last →
      Rests protocol keeps (past ++ eventsOf rounds move) last.engine := by
  induction h generalizing past with
  | @concluded limit round hmade hstop =>
    obtain ⟨hlawful, hrests⟩ := hmade.lawful hkeeps hpast.toKept
    have hevents : eventsOf [round] none = round.events := by simp [eventsOf]
    rw [hevents]
    refine ⟨hlawful, ?_⟩
    rintro last ⟨⟩
    exact hrests
  | @continued limit round rest move result hmade hstop hrest ih =>
    obtain ⟨hlawful, hrests⟩ := hmade.lawful hkeeps hpast.toKept
    obtain ⟨hlater, hlast⟩ := ih hrests
    have hevents : eventsOf (round :: rest) move = round.events ++ eventsOf rest move := by
      simp [eventsOf]
    rw [hevents, allLawful_append, ← List.append_assoc]
    exact ⟨⟨hlawful, hlater⟩, hlast⟩
  | @exhausted run after entry hmoves =>
    have hlimited : Kept protocol keeps past (run.limited name).engine := hpast.toKept
    refine ⟨⟨hmoves.lawful hkeeps hlimited (.inr ⟨hpast.answered, rfl⟩), trivial⟩, ?_⟩
    rintro last ⟨⟩
    exact ⟨hmoves.kept hkeeps hlimited, answered_moved past _⟩
  | broken hbreaks => exact ⟨trivial, nofun⟩
  | brokenAtLimit hbreaks => exact ⟨trivial, nofun⟩

/-! ### Many commands -/

theorem Traces.lawful {past : List (Event S M σ W)} {engine : Engine S M σ}
    {inputs : List (Input W)} {events : List (Event S M σ W)}
    {result : Except Violation (Engine S M σ)} (h : Traces protocol engine inputs events result)
    (hpast : Rests protocol keeps past engine) :
    AllLawful protocol keeps past events ∧ ∀ last, result = .ok last →
      Rests protocol keeps (past ++ events) last := by
  induction h generalizing past with
  | nil =>
    refine ⟨trivial, ?_⟩
    rintro last ⟨⟩
    rw [List.append_nil]
    exact hpast
  | process hrounds hrest ih =>
    obtain ⟨hlawful, hrests⟩ := hrounds.lawful hkeeps hpast
    obtain ⟨hlater, hlast⟩ := ih (hrests _ rfl)
    rw [allLawful_append, ← List.append_assoc]
    exact ⟨⟨hlawful, hlater⟩, hlast⟩
  | broken hrounds => exact ⟨(hrounds.lawful hkeeps hpast).1, nofun⟩
  | @reset engine world inputs events result hrest ih =>
    obtain ⟨hlater, hlast⟩ := ih ⟨hpast.toKept.reset hkeeps world, by simp⟩
    rw [List.append_cons]
    have hreset : Event.Lawful protocol keeps past
        (.reset engine (engine.reset protocol world).1) :=
      .reset hpast.state rfl fun mode hmode => lookup_remember hkeeps _ _ _ hmode
    exact ⟨⟨hreset, hlater⟩, hlast⟩
  | resetHistory hrest ih =>
    obtain ⟨hlater, hlast⟩ := ih ⟨hpast.toKept.forgotten, by simp⟩
    rw [List.append_cons]
    exact ⟨⟨.forgotten, hlater⟩, hlast⟩

end

theorem handleAll_traces (protocol : Protocol S M σ W) (engine : Engine S M σ)
    (inputs : List (Input W)) :
    ∃ events, Traces protocol engine inputs events (handleAll protocol engine inputs) := by
  induction inputs generalizing engine with
  | nil => exact ⟨[], .nil⟩
  | cons input rest ih =>
    cases input with
    | process world context =>
      obtain ⟨rounds, move, hrounds⟩ := loop_dispatches protocol (protocol.name engine.data)
        engine.maxTransitions ⟨engine, world, context, false⟩
      rw [handleAll, List.foldlM_cons, handle, process_eq_loop]
      cases hloop : loop protocol (protocol.name engine.data) engine.maxTransitions
          ⟨engine, world, context, false⟩ with
      | error violation =>
        rw [hloop] at hrounds
        exact ⟨_, .broken hrounds⟩
      | ok run =>
        rw [hloop] at hrounds
        obtain ⟨events, hrest⟩ := ih run.engine
        exact ⟨_, .process hrounds hrest⟩
    | reset world =>
      obtain ⟨events, hrest⟩ := ih (engine.reset protocol world).1
      exact ⟨_, .reset hrest⟩
    | resetHistory =>
      obtain ⟨events, hrest⟩ := ih engine.resetHistory
      exact ⟨_, .resetHistory hrest⟩

/-- A record of the calls shows what the events say. -/
theorem Traces.recorded {engine : Engine S M σ} {inputs : List (Input W)}
    {events : List (Event S M σ W)} {result : Except Violation (Engine S M σ)}
    (h : Traces protocol engine inputs events result) (calls : List (Call S)) :
    handleAll protocol.recorded (engine.recording calls) inputs =
      result.map (·.recording (calls ++ events.flatMap Event.calls)) := by
  induction h generalizing calls with
  | nil => simp [handleAll, Except.map, pure, Except.pure]
  | process hrounds hrest ih =>
    rw [handleAll, List.foldlM_cons, handle, process_recorded hrounds, List.flatMap_append,
      calls_eventsOf, ← List.append_assoc]
    exact ih _
  | broken hrounds =>
    rw [handleAll, List.foldlM_cons, handle, process_recorded hrounds]
    rfl
  | @reset engine world inputs events result hrest ih =>
    rw [List.flatMap_cons, ← List.append_assoc]
    exact ih _
  | resetHistory hrest ih => exact ih _

/-- Where it depends on the mode alone which histories are kept, every move and every entry action
in the course of many commands is as it is to be: the state that an entry action is given is the one
in which its mode was left last, if that mode keeps its history, and else the chosen one. The record
of all calls has no other calls of entry actions than those of the moves. -/
theorem entries_of_history (protocol : Protocol S M σ W) (keeps : M → Bool)
    (hkeeps : ∀ data state, protocol.keepsHistory data state = keeps (protocol.mode state))
    (data : σ) (registry : Registry) (maxTransitions : Nat) (inputs : List (Input W)) :
    let engine : Engine S M σ := ⟨data, protocol.initial, [], registry, maxTransitions⟩
    ∃ events result, handleAll protocol engine inputs = result ∧
      Traces protocol engine inputs events result ∧
      (∀ past event future, events = past ++ event :: future →
        Event.Lawful protocol keeps past event) ∧
      (∀ last, result = .ok last → Kept protocol keeps events last) ∧
      ∀ calls, handleAll protocol.recorded (engine.recording calls) inputs =
        result.map (·.recording (calls ++ events.flatMap Event.calls)) := by
  intro engine
  obtain ⟨events, htraces⟩ := handleAll_traces protocol engine inputs
  have hstart : Rests protocol keeps [] engine := by
    refine ⟨⟨rfl, ?_⟩, by simp [Answered]⟩
    intro mode hmode
    rfl
  obtain ⟨hlawful, hlast⟩ := htraces.lawful hkeeps hstart
  exact ⟨events, _, rfl, htraces, hlawful.lawful, fun last hresult => (hlast last hresult).toKept,
    htraces.recorded⟩

/-! ### A book that is closed and opened again -/

/-- Pages are counted while the book is open, which starts at the page it was closed at. -/
def book : Protocol (Option Nat) Bool Unit Unit where
  name _ := "book"
  shapes _ := []
  initial := none
  mode := Option.isSome
  transition _ world step page :=
    let next := match step.command.command.ins, page with
      | 0x10, none => some 0
      | 0x11, some number => some (number + 1)
      | _, _ => none
    .ok ⟨.ok (some next), (), world, step.context, true⟩
  keepsHistory _ page := page.isSome

/-- Opens the book, turns a page, and opens the book again after a reset. -/
def reading : List (Input Unit) :=
  let command (ins : UInt8) : Input Unit :=
    .process () (.start (.root (.received 0) ⟨0x00, ins, 0x00, 0x00, [], none, false⟩))
  [command 0x10, command 0x11, .reset (), command 0x10]

theorem entries_of_history_reading :
    ∃ events, Traces book ⟨(), none, [], .empty, 4⟩ reading events
        (.ok ⟨(), some 1, [(true, some 1)], .empty, 4⟩) ∧
      (∀ past event future, events = past ++ event :: future → Event.Lawful book id past event) ∧
      events.flatMap Event.calls =
        [.transition none (.ok (some (some 0))), .enter (some 0) (some 0),
          .transition (some 0) (.ok (some (some 1))), .reset,
          .transition none (.ok (some (some 0))), .enter (some 1) (some 1)] := by
  obtain ⟨events, result, hresult, htraces, hlawful, _, hrecorded⟩ :=
    entries_of_history book id (fun _ _ => rfl) () .empty 4 reading
  have hlast : result = .ok ⟨(), some 1, [(true, some 1)], .empty, 4⟩ := hresult.symm
  subst hlast
  have hcalls := congrArg (Except.map (·.data.2)) (hrecorded [])
  exact ⟨events, htraces, hlawful, (Except.ok.inj hcalls).symm⟩

end Engine

end SmartCard
