import SmartCard.Proofs.Protocol.Calls

/-!
# Dispatching a command

For one command the transition hook is called until a call concludes the processing, and at most as
often as the limit allows. If no call does so, the engine answers with 6F00 and moves to the error
state. Where a call did nothing or raised a fault, the response decides between the error state and
the state before the call.
-/

namespace SmartCard

/-- Whether a call is one of the transition hook. -/
def Call.isTransition {S : Type} : Call S → Bool
  | transition .. => true
  | enter .. => false
  | reset => false

namespace Engine

variable {S M σ W : Type}

theorem Move.countP_calls (move : Move S M σ W) : move.calls.countP Call.isTransition = 0 := by
  unfold calls
  cases move.entry <;> rfl

theorem countP_moves (move : Option (Move S M σ W)) :
    (move.toList.flatMap Move.calls).countP Call.isTransition = 0 := by
  cases move with
  | none => rfl
  | some move => simp [Move.countP_calls]

theorem Round.countP_calls (round : Round S M σ W) :
    round.calls.countP Call.isTransition = 1 := by
  rw [calls, List.countP_cons, countP_moves]
  rfl

/-- The transition hook is called once in each round. -/
theorem countP_callsOf (rounds : List (Round S M σ W)) (move : Option (Move S M σ W)) :
    (callsOf rounds move).countP Call.isTransition = rounds.length := by
  rw [callsOf, List.countP_append, countP_moves, Nat.add_zero]
  induction rounds with
  | nil => rfl
  | cons round rest ih =>
    rw [List.flatMap_cons, List.countP_append, Round.countP_calls, ih, List.length_cons]
    omega

theorem Round.concludes_of_declined {round : Round S M σ W}
    (hvalue : ∀ next, round.reply.value ≠ .ok (some next)) : round.Concludes := by
  rcases hreply : round.reply.value with fault | _ | next
  · exact .inr (.inr (.inr ⟨fault, hreply⟩))
  · exact .inr (.inr (.inl hreply))
  · exact absurd hreply (hvalue next)

/-- The run after the call of a round, before any move. -/
def Round.settled (name : String) (round : Round S M σ W) : Run S M σ W :=
  round.before.adopt name round.reply

variable [DecidableEq M] (protocol : Protocol S M σ W) (name : String)

/-- Rounds that follow each other. -/
inductive Path : Run S M σ W → List (Round S M σ W) → Run S M σ W → Prop
  | nil {run : Run S M σ W} : Path run [] run
  | cons {round : Round S M σ W} {rest : List (Round S M σ W)} {last : Run S M σ W}
      (hmade : round.Made protocol name) (hrest : Path round.after rest last) :
      Path round.before (round :: rest) last

/-- What follows from a call that did nothing or raised a fault. -/
structure Round.Declines (round : Round S M σ W) : Prop where
  idle : round.reply.value = .ok none → (round.settled name).context = round.reply.context
  fault : ∀ fault, round.reply.value = .error fault →
    (round.settled name).context.response = some (.ofStatus fault.status) ∧
      (round.settled name).context.history = round.reply.context.history ++
        [⟨name, fault.reason, .ofResponse (.ofStatus fault.status)⟩]
  moves : (round.settled name).context.HasFailed → ∃ move, round.move = some move ∧
    Moves protocol name move ∧ move.before = round.settled name ∧
      move.chosen = protocol.errorState round.reply.data ∧
        round.after = { move.after with stop := true }
  stays : ¬ (round.settled name).context.HasFailed → round.move = none ∧
    round.after.engine.state = round.before.engine.state ∧
      round.after.engine.history = round.before.engine.history ∧
        round.after.context = (round.settled name).context

/-- The move of an engine that gives a command up. -/
structure GivesUp (last : Run S M σ W) (move : Move S M σ W) : Prop where
  moves : Moves protocol name move
  engine : move.before.engine = last.engine
  world : move.before.world = last.world
  chosen : move.chosen = protocol.errorState last.engine.data
  response : move.before.context.response = some (.ofStatus ⟨0x6F, 0x00⟩)
  history : move.before.context.history = last.context.history ++
    [⟨name, "transition limit reached", .ofResponse (.ofStatus ⟨0x6F, 0x00⟩)⟩]
  answer : (∀ entry, move.entry = some entry →
      entry.reply.context.response = move.before.context.response) →
    move.after.context.response = some (.ofStatus ⟨0x6F, 0x00⟩)

/-- How the processing of a command comes to its end: a call concludes it, the limit is reached or a
hook does not return. -/
inductive Ending (limit : Nat) (rounds : List (Round S M σ W)) (last : Run S M σ W) :
    Option (Move S M σ W) → Except Violation (Run S M σ W) → Prop
  | concluded {round : Round S M σ W} (hlast : rounds.getLast? = some round)
      (hconcludes : round.Concludes) : Ending limit rounds last none (.ok last)
  | exhausted {move : Move S M σ W} (hlimit : rounds.length = limit)
      (hnone : ∀ round ∈ rounds, ¬ round.Concludes) (hmove : GivesUp protocol name last move) :
      Ending limit rounds last (some move) (.ok move.after)
  | broken {violation : Violation} (hlimit : rounds.length < limit)
      (hnone : ∀ round ∈ rounds, ¬ round.Concludes)
      (hbreaks : Breaks protocol name last violation) :
      Ending limit rounds last none (.error violation)
  | brokenAtLimit {violation : Violation} (hlimit : rounds.length = limit)
      (hnone : ∀ round ∈ rounds, ¬ round.Concludes)
      (hbreaks : EntryBreaks protocol name (last.limited name)
        (protocol.errorState last.engine.data) violation) :
      Ending limit rounds last none (.error violation)

variable {protocol name}

/-! ### One round -/

theorem Round.Made.stop_iff {round : Round S M σ W} (h : round.Made protocol name)
    (hbefore : round.before.stop = false) : round.after.stop = true ↔ round.Concludes := by
  cases h with
  | @moved run after reply next entry hcall hvalue hmoves =>
    have hrun : run.stop = false := hbefore
    cases hmoves with
    | within hmode => simp [Round.Concludes, Run.adopt, hrun, hvalue]
    | across hmode henter => simp [Round.Concludes, Run.adopt, Run.entered, hrun, hvalue]
  | failed hcall hvalue hfailed hmoves => exact iff_of_true rfl (Round.concludes_of_declined hvalue)
  | unmoved hcall hvalue hfailed => exact iff_of_true rfl (Round.concludes_of_declined hvalue)

theorem Round.Made.declines {round : Round S M σ W} (h : round.Made protocol name)
    (hvalue : ∀ next, round.reply.value ≠ .ok (some next)) : round.Declines protocol name := by
  have hidle : round.reply.value = .ok none →
      (round.settled name).context = round.reply.context := by
    intro hreply
    simp only [Round.settled, Run.adopt, hreply]
  have hfault : ∀ fault, round.reply.value = .error fault →
      (round.settled name).context =
        round.reply.context.respond name fault.reason (.ofStatus fault.status) := by
    intro fault hreply
    simp only [Round.settled, Run.adopt, hreply]
  refine ⟨hidle, ?_, ?_, ?_⟩
  · intro fault hreply
    rw [hfault fault hreply]
    exact ⟨rfl, rfl⟩
  · intro hfailed
    cases h with
    | moved hcall hnext hmoves => exact absurd hnext (hvalue _)
    | failed hcall hvalue hfailed hmoves => exact ⟨_, rfl, hmoves, rfl, rfl, rfl⟩
    | unmoved hcall hvalue hpassed => exact absurd hfailed hpassed
  · intro hpassed
    cases h with
    | moved hcall hnext hmoves => exact absurd hnext (hvalue _)
    | failed hcall hvalue hfailed hmoves => exact absurd hfailed hpassed
    | unmoved hcall hvalue hpassed => exact ⟨rfl, rfl, rfl, rfl⟩

theorem Path.made {run last : Run S M σ W} {rounds : List (Round S M σ W)}
    (h : Path protocol name run rounds last) : ∀ round ∈ rounds, round.Made protocol name := by
  induction h with
  | nil => exact List.forall_mem_nil _
  | cons hmade hrest ih => exact List.forall_mem_cons.mpr ⟨hmade, ih⟩

theorem Moves.response_after {move : Move S M σ W} (h : Moves protocol name move)
    (hentry : ∀ entry, move.entry = some entry →
      entry.reply.context.response = move.before.context.response) :
    move.after.context.response = move.before.context.response := by
  cases h with
  | within hmode => rfl
  | across hmode henter => exact hentry _ rfl

/-! ### All rounds -/

theorem GivesUp.of_moves {last after : Run S M σ W} {entry : Option (Entry S σ W)}
    (hmoves : Moves protocol name
      ⟨last.limited name, protocol.errorState last.engine.data, entry, after⟩) :
    GivesUp protocol name last
      ⟨last.limited name, protocol.errorState last.engine.data, entry, after⟩ :=
  ⟨hmoves, rfl, rfl, rfl, rfl, rfl, hmoves.response_after⟩

/-- A further round, after which the processing goes on. -/
theorem Ending.cons {limit : Nat} {round : Round S M σ W} {rounds : List (Round S M σ W)}
    {last : Run S M σ W} {move : Option (Move S M σ W)} {result : Except Violation (Run S M σ W)}
    (hround : ¬ round.Concludes) (h : Ending protocol name limit rounds last move result) :
    Ending protocol name (limit + 1) (round :: rounds) last move result := by
  cases h with
  | concluded hlast hconcludes =>
    refine .concluded ?_ hconcludes
    rw [List.getLast?_cons, hlast, Option.getD_some]
  | exhausted hlimit hnone hmove =>
    exact .exhausted (congrArg (· + 1) hlimit) (List.forall_mem_cons.mpr ⟨hround, hnone⟩) hmove
  | broken hlimit hnone hbreaks =>
    exact .broken (Nat.succ_lt_succ hlimit) (List.forall_mem_cons.mpr ⟨hround, hnone⟩) hbreaks
  | brokenAtLimit hlimit hnone hbreaks =>
    exact .brokenAtLimit (congrArg (· + 1) hlimit) (List.forall_mem_cons.mpr ⟨hround, hnone⟩)
      hbreaks

theorem Dispatches.ending {limit : Nat} {run : Run S M σ W} {rounds : List (Round S M σ W)}
    {move : Option (Move S M σ W)} {result : Except Violation (Run S M σ W)}
    (h : Dispatches protocol name limit run rounds move result) (hrun : run.stop = false) :
    ∃ last, Path protocol name run rounds last ∧ rounds.length ≤ limit ∧
      (∀ round ∈ rounds.dropLast, ¬ round.Concludes) ∧
      Ending protocol name limit rounds last move result := by
  induction h with
  | @concluded limit round hmade hstop =>
    have hconcludes := (hmade.stop_iff hrun).mp hstop
    exact ⟨round.after, .cons hmade .nil, Nat.succ_le_succ (Nat.zero_le limit),
      List.forall_mem_nil _,
      .concluded rfl hconcludes⟩
  | @continued limit round rest move result hmade hstop hrest ih =>
    obtain ⟨last, hpath, hlength, hfirst, hending⟩ := ih hstop
    -- A round that concludes would have stopped the run, so only the last one can.
    have hround : ¬ round.Concludes := by
      intro hconcludes
      rw [(hmade.stop_iff hrun).mpr hconcludes] at hstop
      cases hstop
    refine ⟨last, .cons hmade hpath, Nat.succ_le_succ hlength, ?_, hending.cons hround⟩
    cases rest with
    | nil => exact List.forall_mem_nil _
    | cons next rest => exact List.forall_mem_cons.mpr ⟨hround, hfirst⟩
  | @exhausted run after entry hmoves =>
    exact ⟨run, .nil, Nat.le_refl _, List.forall_mem_nil _,
      .exhausted rfl (List.forall_mem_nil _) (.of_moves hmoves)⟩
  | @broken limit run violation hbreaks =>
    exact ⟨run, .nil, Nat.zero_le _, List.forall_mem_nil _,
      .broken (Nat.succ_pos limit) (List.forall_mem_nil _) hbreaks⟩
  | @brokenAtLimit run violation hbreaks =>
    exact ⟨run, .nil, Nat.le_refl _, List.forall_mem_nil _,
      .brokenAtLimit rfl (List.forall_mem_nil _) hbreaks⟩

/-- How a protocol, whatever its hooks do, processes a command: `rounds` are the calls of the
transition hook, as a record of all calls shows, and only the last one concludes. -/
theorem process_by_rounds (protocol : Protocol S M σ W) (engine : Engine S M σ) (world : W)
    (context : Context) :
    ∃ rounds last move result,
      process protocol engine world context =
        result.map (fun run => (run.engine, run.world, run.context)) ∧
      (∀ past, process protocol.recorded (engine.recording past) world context =
        result.map fun run =>
          (run.engine.recording (past ++ callsOf rounds move), run.world, run.context)) ∧
      (callsOf rounds move).countP Call.isTransition = rounds.length ∧
      rounds.length ≤ engine.maxTransitions ∧
      Path protocol (protocol.name engine.data) ⟨engine, world, context, false⟩ rounds last ∧
      (∀ round ∈ rounds.dropLast, ¬ round.Concludes) ∧
      Ending protocol (protocol.name engine.data) engine.maxTransitions rounds last move result ∧
      ∀ round ∈ rounds, (∀ next, round.reply.value ≠ .ok (some next)) →
        round.Declines protocol (protocol.name engine.data) := by
  obtain ⟨rounds, move, hdispatches⟩ := loop_dispatches protocol (protocol.name engine.data)
    engine.maxTransitions ⟨engine, world, context, false⟩
  obtain ⟨last, hpath, hlength, hfirst, hending⟩ := hdispatches.ending rfl
  refine ⟨rounds, last, move, _, process_eq_loop protocol engine world context,
    process_recorded hdispatches, countP_callsOf rounds move, hlength, hpath, hfirst, hending, ?_⟩
  intro round hmem hvalue
  exact (hpath.made round hmem).declines hvalue

end Engine

end SmartCard
