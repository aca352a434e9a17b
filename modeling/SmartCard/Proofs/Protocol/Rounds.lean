import SmartCard.Protocol.Engine

/-!
# The rounds of a command

For one command the engine calls the transition hook of its protocol round by round. `Moves` says
what it is to move to another state, `Round.Made` what one round does, and `Dispatches` how rounds
follow each other until one of them is the last, the limit is reached or a hook does not return.
`loop_dispatches` shows that every command is dispatched in this way.
-/

namespace SmartCard

/-- The response is a warning or an error, which is to say that its SW1 is one of 62 to 6F. -/
def Context.HasFailed (context : Context) : Prop :=
  ∃ response, context.response = some response ∧
    0x62 ≤ response.status.sw1 ∧ response.status.sw1 ≤ 0x6F

theorem Step.hasFailed_iff (step : Step) : step.hasFailed = true ↔ step.context.HasFailed := by
  unfold hasFailed status? Context.HasFailed
  cases step.context.response with
  | none => simp
  | some response =>
    simp only [Option.map_some, Option.any_some, StatusWord.isWarning, StatusWord.isError,
      Bool.or_eq_true, decide_eq_true_eq, Option.some.injEq, exists_eq_left', ← UInt8.toNat_inj,
      UInt8.le_iff_toNat_le, UInt8.reduceToNat]
    omega

/-- The entry action that ran for a move: the state it was given, and its reply. -/
structure Entry (S σ W : Type) where
  target : S
  reply : Reply σ W S

namespace Engine

variable {S M σ W : Type}

namespace Run

/-- What a hook sees in a run. -/
def step (name : String) (run : Run S M σ W) : Step :=
  ⟨name, run.engine.registry, run.context⟩

/-- Takes over the reply of the transition hook. A fault is answered with its status word. -/
def adopt (name : String) (run : Run S M σ W) (reply : Reply σ W (Except Fault (Option S))) :
    Run S M σ W where
  engine := { run.engine with data := reply.data }
  world := reply.world
  context := match reply.value with
    | .ok _ => reply.context
    | .error fault => reply.context.respond name fault.reason (.ofStatus fault.status)
  stop := run.stop || reply.stop

/-- Takes over the reply of an entry action, with the history once the former state is left. -/
def entered (run : Run S M σ W) (history : List (M × S)) (reply : Reply σ W S) : Run S M σ W :=
  ⟨{ run.engine with data := reply.data, state := reply.value, history }, reply.world,
    reply.context, run.stop || reply.stop⟩

/-- Answers that the limit is reached. -/
def limited (name : String) (run : Run S M σ W) : Run S M σ W :=
  { run with
    context := run.context.respond name "transition limit reached" (.ofStatus .unknownError) }

end Run

/-- A move to the state `chosen`, with the entry action if it ran. -/
structure Move (S M σ W : Type) where
  before : Run S M σ W
  chosen : S
  entry : Option (Entry S σ W)
  after : Run S M σ W

/-- One call of the transition hook, with the move that it led to. -/
structure Round (S M σ W : Type) where
  before : Run S M σ W
  reply : Reply σ W (Except Fault (Option S))
  move : Option (Move S M σ W)
  after : Run S M σ W

/-- A hook asked to stop, nothing was to be done or a fault was raised. -/
def Round.Concludes (round : Round S M σ W) : Prop :=
  round.reply.stop = true ∨
    (∃ move entry, round.move = some move ∧ move.entry = some entry ∧ entry.reply.stop = true) ∨
    round.reply.value = .ok none ∨ ∃ fault, round.reply.value = .error fault

variable [DecidableEq M] (protocol : Protocol S M σ W) (name : String)

/-- The history once a run has left the state it is in. -/
def leaving (run : Run S M σ W) : List (M × S) :=
  remember protocol run.engine.data run.engine.history run.engine.state

/-- The state to enter on the way to `chosen`. -/
def target (run : Run S M σ W) (chosen : S) : S :=
  resume protocol run.engine.data (leaving protocol run) chosen

/-- What a move does. -/
inductive Moves : Move S M σ W → Prop
  | within {run : Run S M σ W} {chosen : S}
      (hmode : protocol.mode chosen = protocol.mode run.engine.state) :
      Moves ⟨run, chosen, none, { run with engine := { run.engine with state := chosen } }⟩
  | across {run : Run S M σ W} {chosen : S} {reply : Reply σ W S}
      (hmode : protocol.mode chosen ≠ protocol.mode run.engine.state)
      (henter : protocol.enter run.engine.data run.world (run.step name)
        (target protocol run chosen) = .ok reply) :
      Moves ⟨run, chosen, some ⟨target protocol run chosen, reply⟩,
        run.entered (leaving protocol run) reply⟩

/-- The entry action for a move does not return. -/
structure EntryBreaks (run : Run S M σ W) (chosen : S) (violation : Violation) : Prop where
  mode : protocol.mode chosen ≠ protocol.mode run.engine.state
  enter : protocol.enter run.engine.data run.world (run.step name) (target protocol run chosen) =
    .error violation

/-- What one round does. -/
inductive Round.Made : Round S M σ W → Prop
  | moved {run after : Run S M σ W} {reply : Reply σ W (Except Fault (Option S))} {next : S}
      {entry : Option (Entry S σ W)}
      (hcall : protocol.transition run.engine.data run.world (run.step name) run.engine.state =
        .ok reply)
      (hvalue : reply.value = .ok (some next))
      (hmoves : Moves protocol name ⟨run.adopt name reply, next, entry, after⟩) :
      Made ⟨run, reply, some ⟨run.adopt name reply, next, entry, after⟩, after⟩
  | failed {run after : Run S M σ W} {reply : Reply σ W (Except Fault (Option S))}
      {entry : Option (Entry S σ W)}
      (hcall : protocol.transition run.engine.data run.world (run.step name) run.engine.state =
        .ok reply)
      (hvalue : ∀ next, reply.value ≠ .ok (some next))
      (hfailed : (run.adopt name reply).context.HasFailed)
      (hmoves : Moves protocol name
        ⟨run.adopt name reply, protocol.errorState reply.data, entry, after⟩) :
      Made ⟨run, reply, some ⟨run.adopt name reply, protocol.errorState reply.data, entry, after⟩,
        { after with stop := true }⟩
  | unmoved {run : Run S M σ W} {reply : Reply σ W (Except Fault (Option S))}
      (hcall : protocol.transition run.engine.data run.world (run.step name) run.engine.state =
        .ok reply)
      (hvalue : ∀ next, reply.value ≠ .ok (some next))
      (hfailed : ¬ (run.adopt name reply).context.HasFailed) :
      Made ⟨run, reply, none, { run.adopt name reply with stop := true }⟩

/-- A round is not finished, because a hook does not return. -/
inductive Breaks (run : Run S M σ W) (violation : Violation) : Prop
  | transition
      (hcall : protocol.transition run.engine.data run.world (run.step name) run.engine.state =
        .error violation)
  | entry {reply : Reply σ W (Except Fault (Option S))} {chosen : S}
      (hcall : protocol.transition run.engine.data run.world (run.step name) run.engine.state =
        .ok reply)
      (hchosen : reply.value = .ok (some chosen) ∨
        (∀ next, reply.value ≠ .ok (some next)) ∧ (run.adopt name reply).context.HasFailed ∧
          chosen = protocol.errorState reply.data)
      (hbreaks : EntryBreaks protocol name (run.adopt name reply) chosen violation)

/-- The rounds of a command under a limit, the move that the limit leads to, and the result. -/
inductive Dispatches : Nat → Run S M σ W → List (Round S M σ W) → Option (Move S M σ W) →
    Except Violation (Run S M σ W) → Prop
  | concluded {limit : Nat} {round : Round S M σ W} (hmade : round.Made protocol name)
      (hstop : round.after.stop = true) :
      Dispatches (limit + 1) round.before [round] none (.ok round.after)
  | continued {limit : Nat} {round : Round S M σ W} {rest : List (Round S M σ W)}
      {move : Option (Move S M σ W)} {result : Except Violation (Run S M σ W)}
      (hmade : round.Made protocol name) (hstop : round.after.stop = false)
      (hrest : Dispatches limit round.after rest move result) :
      Dispatches (limit + 1) round.before (round :: rest) move result
  | exhausted {run after : Run S M σ W} {entry : Option (Entry S σ W)}
      (hmoves : Moves protocol name
        ⟨run.limited name, protocol.errorState run.engine.data, entry, after⟩) :
      Dispatches 0 run []
        (some ⟨run.limited name, protocol.errorState run.engine.data, entry, after⟩) (.ok after)
  | broken {limit : Nat} {run : Run S M σ W} {violation : Violation}
      (hbreaks : Breaks protocol name run violation) :
      Dispatches (limit + 1) run [] none (.error violation)
  | brokenAtLimit {run : Run S M σ W} {violation : Violation}
      (hbreaks : EntryBreaks protocol name (run.limited name)
        (protocol.errorState run.engine.data) violation) :
      Dispatches 0 run [] none (.error violation)

/-! ### The functions of the engine -/

theorem moveTo_of_mode_eq {run : Run S M σ W} {chosen : S}
    (hmode : protocol.mode chosen = protocol.mode run.engine.state) :
    moveTo protocol name run chosen =
      .ok { run with engine := { run.engine with state := chosen } } := by
  unfold moveTo
  exact if_pos hmode

theorem moveTo_of_mode_ne {run : Run S M σ W} {chosen : S}
    (hmode : protocol.mode chosen ≠ protocol.mode run.engine.state) :
    moveTo protocol name run chosen =
      (protocol.enter run.engine.data run.world (run.step name) (target protocol run chosen)).map
        (run.entered (leaving protocol run)) := by
  unfold moveTo target leaving Run.step
  dsimp only
  rw [if_neg hmode]
  cases protocol.enter run.engine.data run.world ⟨name, run.engine.registry, run.context⟩
    (resume protocol run.engine.data
      (remember protocol run.engine.data run.engine.history run.engine.state) chosen) <;> rfl

theorem abort_of_hasFailed {run : Run S M σ W} (hfailed : run.context.HasFailed) :
    abort protocol name run =
      (moveTo protocol name run (protocol.errorState run.engine.data)).map
        fun after => { after with stop := true } := by
  unfold abort
  refine (if_pos ((run.step name).hasFailed_iff.mpr hfailed)).trans ?_
  cases moveTo protocol name run (protocol.errorState run.engine.data) <;> rfl

theorem abort_of_not_hasFailed {run : Run S M σ W} (hfailed : ¬ run.context.HasFailed) :
    abort protocol name run = .ok { run with stop := true } := by
  unfold abort
  exact if_neg (mt (run.step name).hasFailed_iff.mp hfailed)

theorem advance_eq_moveTo {run : Run S M σ W} {reply : Reply σ W (Except Fault (Option S))}
    {next : S}
    (hcall : protocol.transition run.engine.data run.world (run.step name) run.engine.state =
      .ok reply)
    (hvalue : reply.value = .ok (some next)) :
    advance protocol name run = moveTo protocol name (run.adopt name reply) next := by
  simp only [Run.step] at hcall
  simp only [advance, hcall, hvalue, Run.adopt]

theorem advance_eq_abort {run : Run S M σ W} {reply : Reply σ W (Except Fault (Option S))}
    (hcall : protocol.transition run.engine.data run.world (run.step name) run.engine.state =
      .ok reply)
    (hvalue : ∀ next, reply.value ≠ .ok (some next)) :
    advance protocol name run = abort protocol name (run.adopt name reply) := by
  simp only [Run.step] at hcall
  rcases hreply : reply.value with fault | _ | next
  · simp only [advance, hcall, hreply, Run.adopt]
  · simp only [advance, hcall, hreply, Run.adopt]
  · exact absurd hreply (hvalue next)

theorem Moves.moveTo_eq {move : Move S M σ W} (h : Moves protocol name move) :
    moveTo protocol name move.before move.chosen = .ok move.after := by
  cases h with
  | within hmode => exact moveTo_of_mode_eq protocol name hmode
  | across hmode henter =>
    rw [moveTo_of_mode_ne protocol name hmode, henter]
    rfl

theorem Round.Made.advance_eq {round : Round S M σ W} (h : round.Made protocol name) :
    advance protocol name round.before = .ok round.after := by
  cases h with
  | moved hcall hvalue hmoves =>
    rw [advance_eq_moveTo protocol name hcall hvalue]
    exact hmoves.moveTo_eq
  | failed hcall hvalue hfailed hmoves =>
    rw [advance_eq_abort protocol name hcall hvalue, abort_of_hasFailed protocol name hfailed]
    exact congrArg (Except.map _) hmoves.moveTo_eq
  | unmoved hcall hvalue hfailed =>
    rw [advance_eq_abort protocol name hcall hvalue]
    exact abort_of_not_hasFailed protocol name hfailed

theorem process_eq_loop (engine : Engine S M σ) (world : W) (context : Context) :
    process protocol engine world context =
      (loop protocol (protocol.name engine.data) engine.maxTransitions
        ⟨engine, world, context, false⟩).map fun run => (run.engine, run.world, run.context) := by
  unfold process
  cases loop protocol (protocol.name engine.data) engine.maxTransitions
    ⟨engine, world, context, false⟩ <;> rfl

/-! ### Every command is dispatched -/

theorem moveTo_moves (run : Run S M σ W) (chosen : S) :
    (∃ entry after, moveTo protocol name run chosen = .ok after ∧
        Moves protocol name ⟨run, chosen, entry, after⟩) ∨
      ∃ violation, moveTo protocol name run chosen = .error violation ∧
        EntryBreaks protocol name run chosen violation := by
  by_cases hmode : protocol.mode chosen = protocol.mode run.engine.state
  · exact .inl ⟨none, _, moveTo_of_mode_eq protocol name hmode, .within hmode⟩
  · rw [moveTo_of_mode_ne protocol name hmode]
    cases henter : protocol.enter run.engine.data run.world (run.step name)
      (target protocol run chosen) with
    | error violation => exact .inr ⟨violation, rfl, hmode, henter⟩
    | ok reply => exact .inl ⟨_, _, rfl, .across hmode henter⟩

theorem advance_made (run : Run S M σ W) :
    (∃ round : Round S M σ W, round.before = run ∧ round.Made protocol name ∧
        advance protocol name run = .ok round.after) ∨
      ∃ violation, advance protocol name run = .error violation ∧
        Breaks protocol name run violation := by
  cases hcall : protocol.transition run.engine.data run.world (run.step name)
    run.engine.state with
  | error violation =>
    refine .inr ⟨violation, ?_, .transition hcall⟩
    simp only [Run.step] at hcall
    simp only [advance, hcall]
  | ok reply =>
    by_cases hnext : ∃ next, reply.value = .ok (some next)
    · obtain ⟨next, hvalue⟩ := hnext
      rw [advance_eq_moveTo protocol name hcall hvalue]
      rcases moveTo_moves protocol name (run.adopt name reply) next with
        ⟨entry, after, hmove, hmoves⟩ | ⟨violation, hmove, hbreaks⟩
      · exact .inl ⟨_, rfl, .moved hcall hvalue hmoves, hmove⟩
      · exact .inr ⟨violation, hmove, .entry hcall (.inl hvalue) hbreaks⟩
    · have hvalue : ∀ next, reply.value ≠ .ok (some next) := fun next h => hnext ⟨next, h⟩
      rw [advance_eq_abort protocol name hcall hvalue]
      by_cases hfailed : (run.adopt name reply).context.HasFailed
      · rw [abort_of_hasFailed protocol name hfailed]
        rcases moveTo_moves protocol name (run.adopt name reply)
            (protocol.errorState reply.data) with
          ⟨entry, after, hmove, hmoves⟩ | ⟨violation, hmove, hbreaks⟩
        · exact .inl ⟨_, rfl, .failed hcall hvalue hfailed hmoves, congrArg (Except.map _) hmove⟩
        · exact .inr ⟨violation, congrArg (Except.map _) hmove,
            .entry hcall (.inr ⟨hvalue, hfailed, rfl⟩) hbreaks⟩
      · exact .inl ⟨_, rfl, .unmoved hcall hvalue hfailed,
          abort_of_not_hasFailed protocol name hfailed⟩

/-- However the hooks of a protocol behave, the loop of the engine makes rounds. -/
theorem loop_dispatches (limit : Nat) (run : Run S M σ W) :
    ∃ rounds move, Dispatches protocol name limit run rounds move
      (loop protocol name limit run) := by
  induction limit generalizing run with
  | zero =>
    have hloop : loop protocol name 0 run =
        moveTo protocol name (run.limited name) (protocol.errorState run.engine.data) := rfl
    rw [hloop]
    rcases moveTo_moves protocol name (run.limited name) (protocol.errorState run.engine.data) with
      ⟨entry, after, hmove, hmoves⟩ | ⟨violation, hmove, hbreaks⟩
    · rw [hmove]
      exact ⟨[], _, .exhausted hmoves⟩
    · rw [hmove]
      exact ⟨[], none, .brokenAtLimit hbreaks⟩
  | succ limit ih =>
    rw [loop]
    rcases advance_made protocol name run with
      ⟨round, rfl, hmade, hadvance⟩ | ⟨violation, hadvance, hbreaks⟩
    · rw [hadvance]
      dsimp only
      cases hstop : round.after.stop with
      | true => exact ⟨[round], none, .concluded hmade hstop⟩
      | false =>
        obtain ⟨rounds, move, hrest⟩ := ih round.after
        exact ⟨round :: rounds, move, .continued hmade hstop hrest⟩
    · rw [hadvance]
      exact ⟨[], none, .broken hbreaks⟩

end Engine

end SmartCard
