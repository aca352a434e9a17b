import SmartCard.Proofs.Protocol.Rounds

/-!
# The calls of hooks

A protocol whose hooks keep a record of their calls behaves as it does without, and the record shows
what the engine did with the hooks. For one command the transition hook is called at most as often
as the limit allows, and the calls end with the first one after which there is nothing more to do.
-/

namespace SmartCard

variable {S M σ W : Type}

/-- A call of a hook, with what it was given and what it gave back. -/
inductive Call (S : Type) where
  | transition (state : S) (result : Except Fault (Option S))
  | enter (target entered : S)
  | reset

/-- A reply with a record beside the data of the protocol. -/
def Reply.recording {α : Type} (reply : Reply σ W α) (calls : List (Call S)) :
    Reply (σ × List (Call S)) W α :=
  ⟨reply.value, (reply.data, calls), reply.world, reply.context, reply.stop⟩

/-- A protocol with a record of the calls of its hooks, oldest first. -/
def Protocol.recorded (protocol : Protocol S M σ W) : Protocol S M (σ × List (Call S)) W where
  name data := protocol.name data.1
  shapes data := protocol.shapes data.1
  initial := protocol.initial
  mode := protocol.mode
  transition data world step state :=
    (protocol.transition data.1 world step state).map fun reply =>
      reply.recording (data.2 ++ [.transition state reply.value])
  errorState data := protocol.errorState data.1
  enter data world step target :=
    (protocol.enter data.1 world step target).map fun reply =>
      reply.recording (data.2 ++ [.enter target reply.value])
  keepsHistory data := protocol.keepsHistory data.1
  reset data world :=
    let (next, world) := protocol.reset data.1 world
    ((next, data.2 ++ [.reset]), world)
  attach storage data := (protocol.attach storage data.1, data.2)
  secInfos data := protocol.secInfos data.1

namespace Engine

/-- An engine with a record beside the data of its protocol. -/
def recording (engine : Engine S M σ) (calls : List (Call S)) :
    Engine S M (σ × List (Call S)) :=
  ⟨(engine.data, calls), engine.state, engine.history, engine.registry, engine.maxTransitions⟩

def Run.recording (run : Run S M σ W) (calls : List (Call S)) :
    Run S M (σ × List (Call S)) W :=
  ⟨run.engine.recording calls, run.world, run.context, run.stop⟩

/-- The call of the entry action that a move leads to. -/
def Move.calls (move : Move S M σ W) : List (Call S) :=
  move.entry.toList.map fun entry => .enter entry.target entry.reply.value

/-- The calls of one round. -/
def Round.calls (round : Round S M σ W) : List (Call S) :=
  .transition round.before.engine.state round.reply.value :: round.move.toList.flatMap Move.calls

theorem Round.calls_of_move (run after : Run S M σ W)
    (reply : Reply σ W (Except Fault (Option S))) (move : Move S M σ W) :
    (⟨run, reply, some move, after⟩ : Round S M σ W).calls =
      [.transition run.engine.state reply.value] ++ move.calls := by
  simp only [calls, Option.toList_some, List.flatMap_singleton, List.singleton_append]

theorem Run.adopt_recording (name : String) (run : Run S M σ W)
    (reply : Reply σ W (Except Fault (Option S))) (calls calls' : List (Call S)) :
    (run.recording calls).adopt name (reply.recording calls') =
      (run.adopt name reply).recording calls' := rfl

variable {protocol : Protocol S M σ W} {name : String}

/-! ### Recording changes nothing else -/

theorem transition_recorded {run : Run S M σ W} {result : Except Violation (Reply σ W _)}
    (hcall : protocol.transition run.engine.data run.world (run.step name) run.engine.state =
      result) (calls : List (Call S)) :
    protocol.recorded.transition (run.recording calls).engine.data (run.recording calls).world
        ((run.recording calls).step name) (run.recording calls).engine.state =
      result.map fun reply =>
        reply.recording (calls ++ [.transition run.engine.state reply.value]) :=
  congrArg (Except.map _) hcall

variable [DecidableEq M]

theorem enter_recorded {run : Run S M σ W} {chosen : S} {result : Except Violation (Reply σ W S)}
    (henter : protocol.enter run.engine.data run.world (run.step name)
      (target protocol run chosen) = result) (calls : List (Call S)) :
    protocol.recorded.enter (run.recording calls).engine.data (run.recording calls).world
        ((run.recording calls).step name)
        (target protocol.recorded (run.recording calls) chosen) =
      result.map fun reply =>
        reply.recording (calls ++ [.enter (target protocol run chosen) reply.value]) :=
  congrArg (Except.map _) henter

theorem moveTo_recorded {move : Move S M σ W} (h : Moves protocol name move)
    (calls : List (Call S)) :
    moveTo protocol.recorded name (move.before.recording calls) move.chosen =
      .ok (move.after.recording (calls ++ move.calls)) := by
  cases h with
  | @within run chosen hmode =>
    have hmode' : protocol.recorded.mode chosen =
        protocol.recorded.mode (run.recording calls).engine.state := hmode
    simp only [Move.calls, Option.toList_none, List.map_nil, List.append_nil]
    exact moveTo_of_mode_eq protocol.recorded name hmode'
  | @across run chosen reply hmode henter =>
    have hmode' : protocol.recorded.mode chosen ≠
        protocol.recorded.mode (run.recording calls).engine.state := hmode
    rw [moveTo_of_mode_ne protocol.recorded name hmode', enter_recorded henter calls]
    rfl

theorem moveTo_recorded_of_breaks {run : Run S M σ W} {chosen : S} {violation : Violation}
    (h : EntryBreaks protocol name run chosen violation) (calls : List (Call S)) :
    moveTo protocol.recorded name (run.recording calls) chosen = .error violation := by
  have hmode : protocol.recorded.mode chosen ≠
      protocol.recorded.mode (run.recording calls).engine.state := h.mode
  rw [moveTo_of_mode_ne protocol.recorded name hmode, enter_recorded h.enter calls]
  rfl

theorem advance_recorded {round : Round S M σ W} (h : round.Made protocol name)
    (calls : List (Call S)) :
    advance protocol.recorded name (round.before.recording calls) =
      .ok (round.after.recording (calls ++ round.calls)) := by
  cases h with
  | @moved run after reply next entry hcall hvalue hmoves =>
    rw [advance_eq_moveTo protocol.recorded name (transition_recorded hcall calls) hvalue,
      Run.adopt_recording, Round.calls_of_move, ← List.append_assoc]
    exact moveTo_recorded hmoves _
  | @failed run after reply entry hcall hvalue hfailed hmoves =>
    rw [advance_eq_abort protocol.recorded name (transition_recorded hcall calls) hvalue,
      Run.adopt_recording, abort_of_hasFailed protocol.recorded name hfailed,
      Round.calls_of_move, ← List.append_assoc]
    exact congrArg (Except.map _) (moveTo_recorded hmoves _)
  | @unmoved run reply hcall hvalue hfailed =>
    rw [advance_eq_abort protocol.recorded name (transition_recorded hcall calls) hvalue]
    exact abort_of_not_hasFailed protocol.recorded name hfailed

theorem advance_recorded_of_breaks {run : Run S M σ W} {violation : Violation}
    (h : Breaks protocol name run violation) (calls : List (Call S)) :
    advance protocol.recorded name (run.recording calls) = .error violation := by
  cases h with
  | transition hcall =>
    have hrecorded := transition_recorded hcall calls
    simp only [Run.step, Except.map] at hrecorded
    simp only [advance, hrecorded]
  | @entry reply chosen hcall hchosen hbreaks =>
    have hmove := moveTo_recorded_of_breaks hbreaks
      (calls ++ [.transition run.engine.state reply.value])
    rcases hchosen with hvalue | ⟨hvalue, hfailed, rfl⟩
    · rw [advance_eq_moveTo protocol.recorded name (transition_recorded hcall calls) hvalue]
      exact hmove
    · rw [advance_eq_abort protocol.recorded name (transition_recorded hcall calls) hvalue,
        Run.adopt_recording, abort_of_hasFailed protocol.recorded name hfailed]
      exact congrArg (Except.map _) hmove

/-- The calls that the rounds of a command and its last move make. -/
def callsOf (rounds : List (Round S M σ W)) (move : Option (Move S M σ W)) : List (Call S) :=
  rounds.flatMap Round.calls ++ move.toList.flatMap Move.calls

theorem loop_recorded {limit : Nat} {run : Run S M σ W} {rounds : List (Round S M σ W)}
    {move : Option (Move S M σ W)} {result : Except Violation (Run S M σ W)}
    (h : Dispatches protocol name limit run rounds move result) (calls : List (Call S)) :
    loop protocol.recorded name limit (run.recording calls) =
      result.map (·.recording (calls ++ callsOf rounds move)) := by
  -- Each round adds its calls to the record that the later ones start from.
  induction h generalizing calls with
  | @concluded limit round hmade hstop =>
    have hstop' : (round.after.recording (calls ++ round.calls)).stop = true := hstop
    rw [loop, advance_recorded hmade calls]
    simp [hstop', Except.map, callsOf]
  | @continued limit round rest move result hmade hstop hrest ih =>
    have hstop' : (round.after.recording (calls ++ round.calls)).stop = false := hstop
    rw [loop, advance_recorded hmade calls]
    simp [hstop', ih, callsOf]
  | @exhausted run after entry hmoves =>
    simp only [callsOf, List.flatMap_nil, List.nil_append, Option.toList_some,
      List.flatMap_singleton]
    exact moveTo_recorded hmoves calls
  | broken hbreaks =>
    rw [loop, advance_recorded_of_breaks hbreaks calls]
    rfl
  | brokenAtLimit hbreaks => exact moveTo_recorded_of_breaks hbreaks calls

theorem process_recorded {engine : Engine S M σ} {world : W} {context : Context}
    {rounds : List (Round S M σ W)} {move : Option (Move S M σ W)}
    {result : Except Violation (Run S M σ W)}
    (h : Dispatches protocol (protocol.name engine.data) engine.maxTransitions
      ⟨engine, world, context, false⟩ rounds move result) (calls : List (Call S)) :
    process protocol.recorded (engine.recording calls) world context =
      result.map fun run =>
        (run.engine.recording (calls ++ callsOf rounds move), run.world, run.context) := by
  have hloop := loop_recorded h calls
  rw [process_eq_loop]
  refine (congrArg (Except.map _) hloop).trans ?_
  cases result <;> rfl

end Engine

end SmartCard
