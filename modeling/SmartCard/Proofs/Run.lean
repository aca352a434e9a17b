import Mathlib.Tactic.Common

/-!
# Runs

A system that takes one input after the other leaves a trace of turns. What every step preserves
holds at every moment of a run, also as a relation between the turns so far and the state.
-/

namespace SmartCard

/-- One step of a run: what came in and what went out, with the states around it. -/
structure Turn (S I O : Type) where
  before : S
  input : I
  output : O
  after : S

variable {S I O E : Type}

/-- The turns that inputs bring about, one after the other. -/
def run (step : S → I → Except E (O × S)) : S → List I → Except E (List (Turn S I O))
  | _, [] => .ok []
  | state, input :: rest =>
    match step state input with
    | .error error => .error error
    | .ok (output, next) =>
      match run step next rest with
      | .error error => .error error
      | .ok turns => .ok (⟨state, input, output, next⟩ :: turns)

/-- The state that turns from `start` have led to. -/
def stateAfter (start : S) : List (Turn S I O) → S
  | [] => start
  | turn :: rest => stateAfter turn.after rest

@[simp] theorem stateAfter_concat (start : S) (past : List (Turn S I O)) (turn : Turn S I O) :
    stateAfter start (past ++ [turn]) = turn.after := by
  induction past generalizing start with
  | nil => rfl
  | cons first rest ih => exact ih first.after

/-- What holds at the moment that `past` led to, and of the turn that comes next. -/
structure Moment (step : S → I → Except E (O × S)) (start : S)
    (Inv : List (Turn S I O) → S → Prop) (past future : List (Turn S I O)) : Prop where
  now : Inv past (stateAfter start past)
  next : ∀ turn rest, future = turn :: rest → Inv past turn.before ∧
    step turn.before turn.input = .ok (turn.output, turn.after)

variable {step : S → I → Except E (O × S)} {Inv : List (Turn S I O) → S → Prop}

/-- A run that starts in the middle of another one. -/
theorem run_continues
    (hstep : ∀ past state input, Inv past state → ∃ output next,
      step state input = .ok (output, next) ∧ Inv (past ++ [⟨state, input, output, next⟩]) next)
    (inputs : List I) (done : List (Turn S I O)) (state : S) (hstate : Inv done state) :
    ∃ turns, run step state inputs = .ok turns ∧ ∀ past future, turns = past ++ future →
      Moment step state (fun past => Inv (done ++ past)) past future := by
  induction inputs generalizing done state with
  | nil =>
    refine ⟨[], rfl, ?_⟩
    intro past future hturns
    obtain ⟨rfl, rfl⟩ := List.append_eq_nil_iff.mp hturns.symm
    refine ⟨?_, nofun⟩
    rw [List.append_nil]
    exact hstate
  | cons input rest ih =>
    obtain ⟨output, next, houtput, hnext⟩ := hstep done state input hstate
    obtain ⟨turns, hrun, hturns⟩ := ih _ next hnext
    refine ⟨⟨state, input, output, next⟩ :: turns, ?_, ?_⟩
    · rw [run, houtput]
      dsimp only
      rw [hrun]
    · intro past future hsplit
      cases past with
      | nil =>
        rw [List.nil_append] at hsplit
        subst hsplit
        refine ⟨?_, ?_⟩
        · rw [List.append_nil]
          exact hstate
        · rintro turn rest ⟨⟩
          rw [List.append_nil]
          exact ⟨hstate, houtput⟩
      | cons turn past =>
        obtain ⟨rfl, htail⟩ := List.cons.inj hsplit
        obtain ⟨hnow, hafter⟩ := hturns past future htail
        refine ⟨?_, ?_⟩
        · rw [List.append_cons]
          exact hnow
        · rw [List.append_cons]
          exact hafter

theorem exists_of_run_cons {input : I} {rest : List I} {start : S} {turns : List (Turn S I O)}
    (h : run step start (input :: rest) = .ok turns) :
    ∃ output next later, step start input = .ok (output, next) ∧
      run step next rest = .ok later ∧ turns = ⟨start, input, output, next⟩ :: later := by
  rw [run] at h
  split at h
  · cases h
  · next houtput =>
    split at h
    · cases h
    · next hrest =>
      cases h
      exact ⟨_, _, _, houtput, hrest, rfl⟩

/-- A run takes a turn for each input. -/
theorem input_of_run {inputs : List I} {start : S} {turns : List (Turn S I O)}
    (h : run step start inputs = .ok turns) : turns.map (·.input) = inputs := by
  induction inputs generalizing start turns with
  | nil =>
    cases h
    rfl
  | cons input rest ih =>
    obtain ⟨_, _, later, _, hrest, rfl⟩ := exists_of_run_cons h
    rw [List.map_cons, ih hrest]

/-- A turn between states that are mapped. -/
def Turn.map {T : Type} (f : S → T) (turn : Turn S I O) : Turn T I O :=
  ⟨f turn.before, turn.input, turn.output, f turn.after⟩

/-- A map that commutes with steps commutes with runs. -/
theorem run_map {T : Type} {other : T → I → Except E (O × T)} {f : S → T} {P : S → Prop}
    (hother : ∀ state input, P state →
      other (f state) input = (step state input).map fun (output, next) => (output, f next))
    (hstep : ∀ state input output next, P state → step state input = .ok (output, next) → P next)
    (inputs : List I) {state : S} (hstate : P state) :
    run other (f state) inputs = (run step state inputs).map (List.map (Turn.map f)) := by
  induction inputs generalizing state with
  | nil => rfl
  | cons input rest ih =>
    rw [run, run, hother state input hstate]
    cases houtput : step state input with
    | error error => rfl
    | ok answer =>
      obtain ⟨output, next⟩ := answer
      have hnext := hstep state input output next hstate houtput
      simp only [Except.map, ih hnext]
      cases run step next rest <;> rfl

/-- A map that commutes with the steps of one run gives another run. -/
theorem run_map_of_turns {T : Type} {other : T → I → Except E (O × T)} {f : S → T} {P : S → Prop}
    (hstep : ∀ state input output next, P state → step state input = .ok (output, next) → P next)
    {inputs : List I} {state : S} {turns : List (Turn S I O)} (hstate : P state)
    (hrun : run step state inputs = .ok turns)
    (hother : ∀ turn ∈ turns, P turn.before → other (f turn.before) turn.input =
      (step turn.before turn.input).map fun (output, next) => (output, f next)) :
    run other (f state) inputs = .ok (turns.map (Turn.map f)) := by
  induction inputs generalizing state turns with
  | nil =>
    cases hrun
    rfl
  | cons input rest ih =>
    obtain ⟨output, next, later, houtput, hrest, rfl⟩ := exists_of_run_cons hrun
    obtain ⟨hfirst, hlater⟩ := List.forall_mem_cons.mp hother
    have hmapped := ih (hstep state input output next hstate houtput) hrest hlater
    rw [run, hfirst hstate, houtput]
    simp only [Except.map, hmapped]
    rfl

/-- What every step preserves holds at every moment of a run, and every run comes to its end. -/
theorem run_of_invariant {start : S} (hstart : Inv [] start)
    (hstep : ∀ past state input, Inv past state → ∃ output next,
      step state input = .ok (output, next) ∧ Inv (past ++ [⟨state, input, output, next⟩]) next)
    (inputs : List I) :
    ∃ turns, run step start inputs = .ok turns ∧ ∀ past future, turns = past ++ future →
      Moment step start Inv past future :=
  run_continues hstep inputs [] start hstart

/-- What every step preserves of the state alone holds before every turn and at every moment. -/
theorem exists_run {P : S → Prop} {start : S} (hstart : P start)
    (hstep : ∀ state input, P state →
      ∃ output next, step state input = .ok (output, next) ∧ P next) (inputs : List I) :
    ∃ turns, run step start inputs = .ok turns ∧ (∀ turn ∈ turns, P turn.before) ∧
      ∀ past future, turns = past ++ future → P (stateAfter start past) := by
  let Holds : List (Turn S I O) → S → Prop := fun _ => P
  have hbegins : Holds [] start := hstart
  have hkept : ∀ past state input, Holds past state → ∃ output next,
      step state input = .ok (output, next) ∧ Holds (past ++ [⟨state, input, output, next⟩]) next :=
    fun _ state input h => hstep state input h
  obtain ⟨turns, hrun, hmoments⟩ := run_of_invariant hbegins hkept inputs
  refine ⟨turns, hrun, ?_, fun past future hsplit => (hmoments past future hsplit).now⟩
  intro turn hmem
  obtain ⟨past, future, hsplit⟩ := List.append_of_mem hmem
  exact ((hmoments past (turn :: future) hsplit).next turn future rfl).1

/-! ### Inputs in between -/

variable {J : Type}

/-- What goes out for the inputs that are not in between. -/
def ownOutputs (inputs : List (I ⊕ J)) (turns : List (Turn S I O)) : List O :=
  (inputs.zip turns).filterMap fun (input, turn) => input.getLeft?.map fun _ => turn.output

/-- Inputs in between do not matter to a run if the states that they lead to stand for the one that
was there before. -/
theorem run_between {R : S → S → Prop} {place : J → I}
    {answer : J → O} {inputs : List (I ⊕ J)}
    (hown : ∀ state other input, R state other → ∃ output next next',
      step state input = .ok (output, next) ∧ step other input = .ok (output, next') ∧ R next next')
    (hbetween : ∀ between, .inr between ∈ inputs → ∀ state other, R state other →
      ∃ next, step state (place between) = .ok (answer between, next) ∧ R next other)
    {state other : S} (hR : R state other) :
    ∃ turns plain, run step state (inputs.map (Sum.elim id place)) = .ok turns ∧
      run step other (inputs.filterMap Sum.getLeft?) = .ok plain ∧
      ownOutputs inputs turns = plain.map (·.output) ∧
      (∀ between turn, (.inr between, turn) ∈ inputs.zip turns → turn.output = answer between) ∧
      R (stateAfter state turns) (stateAfter other plain) := by
  induction inputs generalizing state other with
  | nil => exact ⟨[], [], rfl, rfl, rfl, nofun, hR⟩
  | cons input rest ih =>
    replace ih := @ih fun between hmem => hbetween between (List.mem_cons_of_mem _ hmem)
    cases input with
    | inl input =>
      obtain ⟨output, next, next', hstep, hplain, hnext⟩ := hown state other input hR
      obtain ⟨turns, plain, hturns, hplains, hsame, hanswers, hlast⟩ := ih hnext
      refine ⟨⟨state, input, output, next⟩ :: turns, ⟨other, input, output, next'⟩ :: plain,
        ?_, ?_, ?_, ?_, hlast⟩
      · simp [run, hstep, hturns]
      · simp [run, hplain, hplains]
      · simpa [ownOutputs] using hsame
      · intro between turn hmem
        exact hanswers between turn (by simpa using hmem)
    | inr between =>
      obtain ⟨next, hstep, hnext⟩ := hbetween between List.mem_cons_self state other hR
      obtain ⟨turns, plain, hturns, hplains, hsame, hanswers, hlast⟩ := ih hnext
      refine ⟨⟨state, place between, answer between, next⟩ :: turns, plain, ?_, hplains, ?_, ?_,
        hlast⟩
      · simp [run, hstep, hturns]
      · exact hsame
      · intro other turn hmem
        rcases List.mem_cons.mp hmem with hfirst | hmem
        · cases hfirst
          rfl
        · exact hanswers other turn hmem

end SmartCard
