import SmartCard.Proofs.Protocol.Deltas
import SmartCard.Protocol.Echo

/-!
# Offering a command

A card offers a command to its parts one after the other. `Visits` says how the context goes from
part to part, and every command is served by visits to the first parts, up to the one that finishes
it. What the visited parts set last is the response, and the card answers only where none of them
set one.
-/

namespace SmartCard

variable {H W : Type}

/-! ### A record of the parts that process commands -/

namespace Handler

/-- The access that is left without the record beside the state. -/
def withoutRecord (storage : Storage (W × List Nat)) : Storage W where
  password password world :=
    let (stored, next) := storage.password password (world, [])
    (stored, next.1)
  setRetryCounter password counter world :=
    let (result, next) := storage.setRetryCounter password counter (world, [])
    (result, next.1)
  trustPoint terminal world :=
    let (trustPoint, next) := storage.trustPoint terminal (world, [])
    (trustPoint, next.1)

/-- Parts that are numbered, with a record of the numbers of those that process commands. -/
def recorded (handler : Handler H W) : Handler (H × Nat) (W × List Nat) where
  name part := handler.name part.1
  process part world context :=
    (handler.process part.1 world.1 context).map fun (next, state, context) =>
      ((next, part.2), (state, world.2 ++ [part.2]), context)
  reset part world :=
    let (next, state) := handler.reset part.1 world.1
    ((next, part.2), (state, world.2))
  resetHistory part := (handler.resetHistory part.1, part.2)
  attach storage part := (handler.attach (withoutRecord storage) part.1, part.2)
  secInfos part := handler.secInfos part.1

end Handler

/-- A card with its parts numbered in their order. -/
def Card.numbered (card : Card H W) (storage : Storage (W × List Nat)) :
    Card (H × Nat) (W × List Nat) :=
  ⟨storage, card.handlers.zipIdx, card.options, card.received⟩

/-! ### Visits -/

/-- A part processed a command: the part, the persistent state and the context before and after,
and the calls by which the context changed. -/
structure Visit (H W : Type) where
  part : H
  world : W
  context : Context
  changes : List Context.Change
  part' : H
  world' : W
  context' : Context

/-- The responses that a part set, in order. -/
def Visit.responses (visit : Visit H W) : List Response :=
  (visit.changes.flatMap Context.Change.given).filterMap (·.delta.response)

/-- A part processes a command that is not finished. -/
structure Visit.Made (handler : Handler H W) (visit : Visit H W) : Prop where
  unfinished : visit.context.isFinished = false
  processed : handler.process visit.part visit.world visit.context =
    .ok (visit.part', visit.world', visit.context')
  changed : visit.context.changeAll visit.changes = .ok visit.context'

/-- Visits that follow each other. -/
inductive Visits (handler : Handler H W) : W → Context → List (Visit H W) → W → Context → Prop
  | nil {world : W} {context : Context} : Visits handler world context [] world context
  | cons {visit : Visit H W} {rest : List (Visit H W)} {world : W} {context : Context}
      (hmade : visit.Made handler)
      (hrest : Visits handler visit.world' visit.context' rest world context) :
      Visits handler visit.world visit.context (visit :: rest) world context

variable {handler : Handler H W}

/-- Parts are visited until the context is finished or there are no more parts. -/
theorem exists_visits {parts : List H} (hchanges : ∀ part ∈ parts, handler.Changes part) (world : W)
    (context : Context) :
    ∃ visits rest world' context', parts = visits.map (·.part) ++ rest ∧
      Visits handler world context visits world' context' ∧
      (rest ≠ [] → context'.isFinished = true) := by
  induction parts generalizing world context with
  | nil => exact ⟨[], [], world, context, rfl, .nil, absurd rfl⟩
  | cons part parts ih =>
    cases hfinished : context.isFinished with
    | true => exact ⟨[], part :: parts, world, context, rfl, .nil, fun _ => hfinished⟩
    | false =>
      obtain ⟨hpart, hparts⟩ := List.forall_mem_cons.mp hchanges
      obtain ⟨part', between, context', hprocess, changes, hchanged⟩ := hpart world context
      obtain ⟨visits, rest, world', last, rfl, hvisits, hspared⟩ := ih hparts between context'
      let visit : Visit H W := ⟨part, world, context, changes, part', between, context'⟩
      have hmade : visit.Made handler := ⟨hfinished, hprocess, hchanged⟩
      exact ⟨visit :: visits, rest, world', last, rfl, .cons hmade hvisits, hspared⟩

namespace Visits

variable {world world' : W} {context context' : Context} {visits : List (Visit H W)}

theorem offer_eq (h : Visits handler world context visits world' context') {rest : List H}
    (hspared : rest ≠ [] → context'.isFinished = true) :
    Card.offer handler (visits.map (·.part) ++ rest) world context =
      .ok (visits.map (·.part') ++ rest, world', context') := by
  induction h with
  | @nil world context =>
    cases rest with
    | nil => rfl
    | cons part rest =>
      have hfinished := hspared (List.cons_ne_nil part rest)
      exact if_pos hfinished
  | @cons visit visits world' context' hmade hvisits ih =>
    simp only [List.map_cons, List.cons_append, Card.offer, hmade.unfinished, hmade.processed,
      ih hspared, Bool.false_eq_true, if_false]

theorem offer_recorded (h : Visits handler world context visits world' context') {rest : List H}
    (hspared : rest ≠ [] → context'.isFinished = true) (first : Nat) (past : List Nat) :
    Card.offer handler.recorded ((visits.map (·.part) ++ rest).zipIdx first) (world, past) context =
      .ok ((visits.map (·.part') ++ rest).zipIdx first,
        (world', past ++ List.range' first visits.length), context') := by
  -- Each visit adds its number to the record that the later ones start from.
  induction h generalizing first past with
  | @nil world context =>
    rw [List.length_nil, List.range'_zero, List.append_nil]
    cases rest with
    | nil => rfl
    | cons part rest =>
      have hfinished := hspared (List.cons_ne_nil part rest)
      exact if_pos hfinished
  | @cons visit visits world' context' hmade hvisits ih =>
    have hprocessed : handler.recorded.process (visit.part, first) (visit.world, past)
        visit.context =
          .ok ((visit.part', first), (visit.world', past ++ [first]), visit.context') := by
      simp only [Handler.recorded, hmade.processed, Except.map]
    simp only [List.map_cons, List.cons_append, List.zipIdx_cons, Card.offer, hmade.unfinished,
      hprocessed, ih hspared, Bool.false_eq_true, if_false, List.length_cons, List.range'_succ,
      List.append_assoc, List.nil_append]

theorem changeAll_eq (h : Visits handler world context visits world' context') :
    context.changeAll (visits.flatMap (·.changes)) = .ok context' := by
  induction h with
  | nil => rfl
  | cons hmade _ ih => exact Context.changeAll_append hmade.changed ih

/-- Deltas that are left out as empty set no response. -/
theorem responses_recorded (visits : List (Visit H W)) :
    (Context.recorded (visits.flatMap (·.changes))).filterMap (·.delta.response) =
      visits.flatMap Visit.responses := by
  have hgiven : visits.flatMap Visit.responses =
      ((visits.flatMap (·.changes)).flatMap Context.Change.given).filterMap (·.delta.response) := by
    rw [List.flatMap_assoc, List.filterMap_flatMap]
    rfl
  rw [hgiven, Context.recorded, List.filterMap_filter]
  congr 1
  funext entry
  by_cases hempty : entry.delta = .empty
  · simp [hempty, Delta.empty]
  · simp [hempty]

/-- From a fresh context, visits lead to the last response that a part set. -/
theorem response_eq {command : Handle}
    (h : Visits handler world (.start command) visits world' context') :
    context'.response = (visits.flatMap Visit.responses).getLast? := by
  have hreplay := h.changeAll_eq
  rw [Context.changeAll_eq_replay] at hreplay
  rw [Context.replay_start Context.delta_ne_empty_of_mem_recorded hreplay, responses_recorded]

theorem history_eq {command : Handle}
    (h : Visits handler world (.start command) visits world' context') :
    context'.history = Context.recorded (visits.flatMap (·.changes)) := by
  have hreplay := h.changeAll_eq
  rw [Context.changeAll_eq_replay] at hreplay
  rw [Context.replay_start Context.delta_ne_empty_of_mem_recorded hreplay]

end Visits

/-! ### Serving a command -/

/-- The record of a card that no part answered for. -/
def Card.unhandled (card : Card H W) : Record :=
  ⟨"card", "unhandled command", .ofResponse (.ofStatus card.options.unhandledStatus)⟩

theorem Context.record_ne (context : Context) (entry : Record) :
    context.record entry ≠ context := by
  intro hsame
  have hlength := congrArg (fun context => context.history.length) hsame
  simp [Context.record] at hlength

/-- The card after its first parts were visited. -/
def Card.visited (card : Card H W) (visits : List (Visit H W)) (rest : List H) : Card H W :=
  { card with handlers := visits.map (·.part') ++ rest }

/-- How a card serves a command: it visits its first parts and spares the rest. -/
structure Serves (handler : Handler H W) (card : Card H W) (world : W) (command : Handle)
    (visits : List (Visit H W)) (rest : List H) (world' : W) (offered context : Context)
    (response : Response) : Prop where
  parts : card.handlers = visits.map (·.part) ++ rest
  follows : Visits handler world (.start command) visits world' offered
  spared : rest ≠ [] → offered.isFinished = true
  processed : card.process handler world command = .ok (card.visited visits rest, world', context)
  /-- The first parts process the command, each of them once and in their order. -/
  recorded : ∀ storage past,
    (card.numbered storage).process handler.recorded (world, past) command =
      .ok ((card.visited visits rest).numbered storage,
        (world', past ++ List.range visits.length), context)
  history : offered.history = Context.recorded (visits.flatMap (·.changes))
  answered : context.response = some response
  last : response = (visits.flatMap Visit.responses).getLast?.getD
    (.ofStatus card.options.unhandledStatus)
  handled : context = offered ↔ visits.flatMap Visit.responses ≠ []
  unhandled : context = offered.record card.unhandled ↔ visits.flatMap Visit.responses = []

theorem serves_of_visits {card : Card H W} {world world' : W} {command : Handle}
    {visits : List (Visit H W)} {rest : List H} {offered : Context}
    (hparts : card.handlers = visits.map (·.part) ++ rest)
    (hvisits : Visits handler world (.start command) visits world' offered)
    (hspared : rest ≠ [] → offered.isFinished = true) :
    ∃ context response,
      Serves handler card world command visits rest world' offered context response := by
  have hoffer := hvisits.offer_eq hspared
  have hrecorded := hvisits.offer_recorded hspared 0
  have hresponse := hvisits.response_eq
  have hhistory := hvisits.history_eq
  have hrange := List.range_eq_range' (n := visits.length)
  rw [← hparts] at hoffer hrecorded
  cases hlast : (visits.flatMap Visit.responses).getLast? with
  | none =>
    have hnone := List.getLast?_eq_none_iff.mp hlast
    rw [hlast] at hresponse
    have hprocessed : card.process handler world command =
        .ok (card.visited visits rest, world', offered.record card.unhandled) := by
      simp only [Card.process, hoffer, hresponse]
      rfl
    refine ⟨offered.record card.unhandled, .ofStatus card.options.unhandledStatus, hparts, hvisits,
      hspared, hprocessed, ?_, hhistory, rfl, ?_, ?_, ?_⟩
    · intro storage past
      simp only [Card.process, Card.numbered, hrecorded, hresponse, hrange]
      rfl
    · rw [hlast]
      rfl
    · exact iff_of_false (offered.record_ne card.unhandled) (absurd hnone)
    · exact iff_of_true rfl hnone
  | some last =>
    have hsome : visits.flatMap Visit.responses ≠ [] := by
      intro hnone
      rw [hnone] at hlast
      cases hlast
    rw [hlast] at hresponse
    have hprocessed : card.process handler world command =
        .ok (card.visited visits rest, world', offered) := by
      simp only [Card.process, hoffer, hresponse]
      rfl
    refine ⟨offered, last, hparts, hvisits, hspared, hprocessed, ?_, hhistory, hresponse, ?_, ?_,
      ?_⟩
    · intro storage past
      simp only [Card.process, Card.numbered, hrecorded, hresponse, hrange]
      rfl
    · rw [hlast]
      rfl
    · exact iff_of_true rfl hsome
    · exact iff_of_false (offered.record_ne card.unhandled).symm hsome

/-- A card whose parts only apply deltas answers whatever bytes it is given. Bytes that are not a
command reach no part. A command is served by visits to the first parts, and what comes back is the
response of the context then. -/
theorem handle_by_visits (handler : Handler H W) (card : Card H W) (world : W) (bytes : Bytes)
    (hchanges : ∀ part ∈ card.handlers, handler.Changes part) :
    (∀ error, Command.decode bytes = .error error →
      card.handle handler world bytes = .ok (card, world, .ofStatus ⟨0x67, 0x00⟩)) ∧
    ∀ command, Command.decode bytes = .ok command →
      ∃ visits rest world' offered context response,
        Serves handler card world (.root (.received card.received) command) visits rest world'
          offered context response ∧
        card.handle handler world bytes =
          .ok ({ card.visited visits rest with received := card.received + 1 }, world',
            response) := by
  refine ⟨?_, ?_⟩
  · intro error hdecode
    rw [Card.handle, hdecode]
    rfl
  · intro command hdecode
    obtain ⟨visits, rest, world', offered, hparts, hvisits, hspared⟩ :=
      exists_visits hchanges world (.start (.root (.received card.received) command))
    obtain ⟨context, response, hserves⟩ := serves_of_visits hparts hvisits hspared
    refine ⟨visits, rest, world', offered, context, response, hserves, ?_⟩
    rw [Card.handle, hdecode]
    dsimp only
    rw [hserves.processed]
    dsimp only
    rw [hserves.answered]
    rfl

/-! ### A card that echoes -/

namespace Echo

theorem changes_protocol : (protocol : Protocol Unit Unit Echo W).Changes := by
  constructor
  case transition =>
    intro echo world step state
    unfold protocol
    dsimp only
    split
    · exact ⟨_, rfl, Context.leads_respond _ _ _ _⟩
    · exact ⟨_, rfl, Context.leads_refl _⟩
  case enter => exact fun _ _ step _ => ⟨_, rfl, Context.leads_refl step.context⟩

def parts : Handler (Engine Unit Unit Echo) CardMemory :=
  protocol.handler

/-- Two parts for one instruction, of which the first leaves the command unfinished, and parts for
other ones. -/
def card : Card (Engine Unit Unit Echo) CardMemory where
  storage := .memory
  handlers := [⟨0x10, .moreAvailable 4⟩, ⟨0x10, .success⟩, ⟨0x20, .wrongData⟩,
    ⟨0x30, .moreAvailable 2⟩].map fun echo => .start (protocol (W := CardMemory)) echo 32
  options := {}
  received := 0

def command : Command :=
  ⟨0x00, 0x10, 0x00, 0x00, [], none, false⟩

/-- The first part answers that there is more, the second one finishes the command, and the others
are spared. -/
theorem handle_by_visits_card :
    ∃ visits rest world' offered context response,
      Serves parts card .empty (.root (.received 0) command) visits rest world' offered context
        response ∧
      visits.length = 2 ∧ rest.length = 2 ∧ response = .ofStatus .success ∧
      card.handle parts .empty command.encode =
        .ok ({ card.visited visits rest with received := 1 }, world', response) := by
  have hchanges : ∀ part ∈ card.handlers, parts.Changes part :=
    fun part _ => Protocol.Changes.handler changes_protocol part
  obtain ⟨_, hhandle⟩ := handle_by_visits parts card .empty command.encode hchanges
  obtain ⟨visits, rest, world', offered, context, response, hserves, hanswer⟩ := hhandle command rfl
  have hresponse : (card.handle parts .empty command.encode).map (·.2.2) =
      .ok (.ofStatus .success) := rfl
  have hlength : visits.length = 2 := by
    let storage : Storage (CardMemory × List Nat) :=
      ⟨fun _ world => (none, world), fun _ _ world => (.ok (), world), fun _ world => (none, world)⟩
    have hrecord : ((card.numbered storage).process parts.recorded (.empty, [])
        (.root (.received card.received) command)).map (·.2.1.2) = .ok [0, 1] := rfl
    rw [hserves.recorded storage []] at hrecord
    have hnumbers := congrArg List.length (Except.ok.inj hrecord)
    rwa [List.nil_append, List.length_range] at hnumbers
  have hparts := congrArg List.length hserves.parts
  rw [List.length_append, List.length_map, hlength] at hparts
  have hrest : rest.length = 2 := Nat.add_left_cancel hparts.symm
  rw [hanswer] at hresponse
  exact ⟨visits, rest, world', offered, context, response, hserves, hlength, hrest,
    Except.ok.inj hresponse, hanswer⟩

end Echo

end SmartCard
