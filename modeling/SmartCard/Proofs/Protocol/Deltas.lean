import SmartCard.Card.Basic
import SmartCard.Proofs.Context.Replay
import SmartCard.Proofs.Protocol.Rounds

/-!
# Parts that apply deltas

A part of a card that always returns, and that does nothing to a context but apply deltas. An engine
is such a part if the hooks of its protocol are, whatever the limit is and however the hooks answer.
-/

namespace SmartCard

namespace Context

theorem changeAll_append {before between after : Context} {earlier later : List Change}
    (hearlier : before.changeAll earlier = .ok between)
    (hlater : between.changeAll later = .ok after) :
    before.changeAll (earlier ++ later) = .ok after := by
  unfold changeAll at hearlier hlater ⊢
  rw [List.foldlM_append, hearlier]
  exact hlater

/-- All that happens between two contexts is that deltas are applied. -/
def Leads (before after : Context) : Prop :=
  ∃ changes, before.changeAll changes = .ok after

theorem Leads.trans {first second third : Context} (hfirst : first.Leads second)
    (hsecond : second.Leads third) : first.Leads third := by
  obtain ⟨earlier, hearlier⟩ := hfirst
  obtain ⟨later, hlater⟩ := hsecond
  exact ⟨earlier ++ later, changeAll_append hearlier hlater⟩

theorem leads_refl (context : Context) : context.Leads context :=
  ⟨[], rfl⟩

theorem leads_respond (context : Context) (initiator message : String) (response : Response) :
    context.Leads (context.respond initiator message response) :=
  ⟨[.respond initiator message response], rfl⟩

end Context

variable {H S M σ W : Type}

/-- Whatever a part is offered, it returns, and all that it does to the context is to apply
deltas. -/
def Handler.Changes (handler : Handler H W) (part : H) : Prop :=
  ∀ world context, ∃ part' world' context',
    handler.process part world context = .ok (part', world', context') ∧ context.Leads context'

/-- The hooks of a protocol return, and all that they do to the context is to apply deltas. -/
structure Protocol.Changes (protocol : Protocol S M σ W) : Prop where
  transition : ∀ data world step state, ∃ reply,
    protocol.transition data world step state = .ok reply ∧ step.context.Leads reply.context
  enter : ∀ data world step state, ∃ reply,
    protocol.enter data world step state = .ok reply ∧ step.context.Leads reply.context

namespace Engine

variable {protocol : Protocol S M σ W} {name : String} {run : Run S M σ W}

theorem leads_adopt (hchanges : protocol.Changes) {reply : Reply σ W (Except Fault (Option S))}
    (hcall : protocol.transition run.engine.data run.world (run.step name) run.engine.state =
      .ok reply) :
    run.context.Leads (run.adopt name reply).context := by
  obtain ⟨other, hother, hleads⟩ := hchanges.transition run.engine.data run.world (run.step name)
    run.engine.state
  rw [hcall] at hother
  cases hother
  unfold Run.adopt
  cases reply.value with
  | ok next => exact hleads
  | error fault => exact hleads.trans (Context.leads_respond _ _ _ _)

variable [DecidableEq M]

theorem leads_of_moves (hchanges : protocol.Changes) {move : Move S M σ W}
    (hmoves : Moves protocol name move) : move.before.context.Leads move.after.context := by
  cases hmoves with
  | within => exact Context.leads_refl _
  | @across run chosen reply hmode henter =>
    obtain ⟨other, hother, hleads⟩ := hchanges.enter run.engine.data run.world (run.step name)
      (target protocol run chosen)
    rw [henter] at hother
    cases hother
    exact hleads

theorem leads_of_made (hchanges : protocol.Changes) {round : Round S M σ W}
    (hmade : round.Made protocol name) : round.before.context.Leads round.after.context := by
  cases hmade with
  | moved hcall _ hmoves =>
    exact (leads_adopt hchanges hcall).trans (leads_of_moves hchanges hmoves)
  | failed hcall _ _ hmoves =>
    exact (leads_adopt hchanges hcall).trans (leads_of_moves hchanges hmoves)
  | unmoved hcall => exact leads_adopt hchanges hcall

theorem not_entryBreaks (hchanges : protocol.Changes) {chosen : S} {violation : Violation} :
    ¬ EntryBreaks protocol name run chosen violation := by
  intro hbreaks
  obtain ⟨reply, hreply, _⟩ := hchanges.enter run.engine.data run.world (run.step name)
    (target protocol run chosen)
  rw [hbreaks.enter] at hreply
  cases hreply

theorem not_breaks (hchanges : protocol.Changes) {violation : Violation} :
    ¬ Breaks protocol name run violation := by
  intro hbreaks
  cases hbreaks with
  | transition hcall =>
    obtain ⟨reply, hreply, _⟩ := hchanges.transition run.engine.data run.world (run.step name)
      run.engine.state
    rw [hcall] at hreply
    cases hreply
  | entry _ _ hentry => exact not_entryBreaks hchanges hentry

theorem leads_of_dispatches (hchanges : protocol.Changes) {limit : Nat}
    {rounds : List (Round S M σ W)} {move : Option (Move S M σ W)}
    {result : Except Violation (Run S M σ W)}
    (h : Dispatches protocol name limit run rounds move result) :
    ∃ last, result = .ok last ∧ run.context.Leads last.context := by
  induction h with
  | concluded hmade => exact ⟨_, rfl, leads_of_made hchanges hmade⟩
  | continued hmade _ _ ih =>
    obtain ⟨last, hresult, hleads⟩ := ih
    exact ⟨last, hresult, (leads_of_made hchanges hmade).trans hleads⟩
  | exhausted hmoves =>
    exact ⟨_, rfl, (Context.leads_respond _ _ _ _).trans (leads_of_moves hchanges hmoves)⟩
  | broken hbreaks => exact absurd hbreaks (not_breaks hchanges)
  | brokenAtLimit hbreaks => exact absurd hbreaks (not_entryBreaks hchanges)

end Engine

/-- An engine changes contexts as the hooks of its protocol do. -/
theorem Protocol.Changes.handler [DecidableEq M] {protocol : Protocol S M σ W}
    (hchanges : protocol.Changes) (engine : Engine S M σ) : protocol.handler.Changes engine := by
  intro world context
  obtain ⟨rounds, move, hdispatches⟩ := Engine.loop_dispatches protocol
    (protocol.name engine.data) engine.maxTransitions ⟨engine, world, context, false⟩
  obtain ⟨last, hlast, hleads⟩ := Engine.leads_of_dispatches hchanges hdispatches
  refine ⟨last.engine, last.world, last.context, ?_, hleads⟩
  have hprocess := Engine.process_eq_loop protocol engine world context
  rw [hlast] at hprocess
  exact hprocess

end SmartCard
