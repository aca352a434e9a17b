import Mathlib.Data.List.DropRight
import SmartCard.Proofs.Pace.Emulation

/-!
# Guessing passwords

A card that keeps its state in memory counts the tokens that it rejects. The counter of a password
and the tokens rejected for it add up to the counter that the password started with, as long as no
token for it was right.
-/

namespace SmartCard.Pace

variable {μ : Type}

/-- The result of a verification. -/
def Call.verification? : Call → Option (Except Fault (Option Authentication))
  | mutualAuthenticate _ result => some result
  | _ => none

namespace Emulation

/-- The record of the calls, as the protocol of the card holds it. -/
def calls (emulation : Emulation (μ × List Call) CardMemory) : List Call :=
  emulation.card.handlers.flatMap (·.data.calls)

/-- The password that was selected last and not yet used. -/
def selected? (emulation : Emulation μ CardMemory) : Option PasswordRef :=
  emulation.card.handlers.head?.bind fun engine => engine.data.selection.map (·.password)

/-- The stored counter of a password. -/
def counter? (emulation : Emulation μ CardMemory) (password : PasswordRef) : Option UInt8 :=
  (emulation.world.passwords password).bind (·.retryCounter)

/-- A turn of a card that keeps its state in memory. -/
abbrev Exchange (μ : Type) :=
  Turn (Emulation (μ × List Call) CardMemory) Input (Option Response)

/-- The results of the verifications in a turn. -/
def verifications (turn : Exchange μ) : List (Except Fault (Option Authentication)) :=
  (turn.after.calls.drop turn.before.calls.length).filterMap Call.verification?

/-- The results of the verifications in a turn that a password was selected for. -/
def attempts (password : PasswordRef) (turn : Exchange μ) :
    List (Except Fault (Option Authentication)) :=
  if turn.before.selected? = some password then verifications turn else []

/-- How many tokens were rejected for a password. -/
def rejections (password : PasswordRef) (past : List (Exchange μ)) : Nat :=
  (past.flatMap (attempts password)).countP fun result => result matches .ok none

/-- A token for a password was right. -/
def Succeeded (password : PasswordRef) (past : List (Exchange μ)) : Prop :=
  ∃ authentication, .ok (some authentication) ∈ past.flatMap (attempts password)

/-- The turns since the last reset of the session. -/
def inSession (past : List (Exchange μ)) : List (Exchange μ) :=
  past.rtakeWhile fun turn => !(turn.input matches .reset)

end Emulation

/-! ### Counters in memory -/

section

variable {pace : Pace μ CardMemory} {memory memory' : CardMemory} {password : PasswordRef}
  {stored : PasswordState}

theorem reads_memory (hreads : Reads (some Storage.memory) memory memory') : memory' = memory := by
  induction hreads with
  | refl => rfl
  | password hstorage password _ ih =>
    cases hstorage
    exact ih
  | trustPoint hstorage terminal _ ih =>
    cases hstorage
    exact ih

theorem readPassword_memory {world : CardMemory} (hstorage : pace.storage = some Storage.memory)
    (h : pace.readPassword password memory = (.ok stored, world)) :
    memory.passwords password = some stored ∧ world = memory := by
  unfold readPassword at h
  rw [hstorage] at h
  dsimp only [Storage.memory] at h
  cases hfound : memory.passwords password with
  | none =>
    rw [hfound] at h
    cases h
  | some state =>
    rw [hfound] at h
    cases h
    exact ⟨rfl, rfl⟩

theorem writeCounter_memory {counter old : UInt8} (hstorage : pace.storage = some Storage.memory)
    (hstored : memory.passwords password = some stored)
    (hcounter : stored.retryCounter = some old) :
    pace.writeCounter password counter memory =
      (.ok (), memory.withPassword password { stored with retryCounter := some counter }) := by
  unfold writeCounter
  rw [hstorage]
  dsimp only [Storage.memory]
  rw [CardMemory.setRetryCounter, hstored]
  simp [hcounter]

theorem passwords_withPassword_of_ne {other : PasswordRef} {state : PasswordState}
    (h : other ≠ password) :
    (memory.withPassword password state).passwords other = memory.passwords other :=
  if_neg h

theorem passwords_withPassword_self {state : PasswordState} :
    (memory.withPassword password state).passwords password = some state :=
  if_pos rfl

/-- An attempt lowers the counter of its password and nothing else. -/
theorem spendAttempt_memory {result : Except Fault Unit}
    (hstorage : pace.storage = some Storage.memory)
    (hstored : memory.passwords password = some stored) (hblocked : stored.isBlocked = false)
    (h : pace.spendAttempt password stored memory = (result, memory')) :
    result = .ok () ∧
      (∀ other, other ≠ password → memory'.passwords other = memory.passwords other) ∧
      (memory'.passwords password).bind (·.retryCounter) = stored.retryCounter.map (· - 1) := by
  unfold spendAttempt at h
  cases hcounter : stored.retryCounter with
  | none =>
    rw [hcounter] at h
    cases h
    refine ⟨rfl, fun _ _ => rfl, ?_⟩
    rw [hstored]
    exact hcounter
  | some counter =>
    have hpositive : counter ≠ 0 := by
      rintro rfl
      simp [PasswordState.isBlocked, hcounter] at hblocked
    rw [hcounter] at h
    dsimp only at h
    rw [if_neg hpositive, writeCounter_memory hstorage hstored hcounter] at h
    cases h
    refine ⟨rfl, fun other hother => passwords_withPassword_of_ne hother, ?_⟩
    rw [passwords_withPassword_self]
    rfl

/-- Restoring a counter touches no other password. -/
theorem restoreCounter_memory {result : Except Fault Unit}
    (hstorage : pace.storage = some Storage.memory)
    (hstored : memory.passwords password = some stored)
    (h : pace.restoreCounter password stored memory = (result, memory')) :
    result = .ok () ∧
      ∀ other, other ≠ password → memory'.passwords other = memory.passwords other := by
  unfold restoreCounter at h
  split at h
  · next counter initial hcounter _ =>
    split at h
    · cases h
      exact ⟨rfl, fun _ _ => rfl⟩
    · rw [writeCounter_memory hstorage hstored hcounter] at h
      cases h
      exact ⟨rfl, fun other hother => passwords_withPassword_of_ne hother⟩
  · cases h
    exact ⟨rfl, fun _ _ => rfl⟩

end

/-! ### One input -/

/-- The counter of a password before and after a verification for it. Nothing is said about it after
a right token. -/
def Spends (before after : Option UInt8) : Except Fault (Option Authentication) → Prop
  | .error _ => after = before
  | .ok none => after = before.map (· - 1)
  | .ok (some _) => True

/-- What an input means for the passwords. -/
inductive Effect (engine : Driver (μ × List Call) CardMemory) (memory : CardMemory)
    (engine' : Driver (μ × List Call) CardMemory) (memory' : CardMemory) : Prop
  | prepared {made : List Call} (hcalls : engine'.data.calls = engine.data.calls ++ made)
      (hmade : made.filterMap Call.verification? = []) (hmemory : memory' = memory)
  | verified {token : Bytes} {selection : Selection} {stored : PasswordState}
      {result : Except Fault (Option Authentication)}
      (hcalls : engine'.data.calls = engine.data.calls ++ [.mutualAuthenticate token result])
      (hselection : engine.data.selection = some selection)
      (hstored : memory.passwords selection.password = some stored)
      (hblocked : stored.isBlocked = false)
      (hresumed : engine.data.isSuspended selection.password stored = false)
      (hothers : ∀ other, other ≠ selection.password →
        memory'.passwords other = memory.passwords other)
      (hspends : Spends stored.retryCounter
        ((memory'.passwords selection.password).bind (·.retryCounter)) result)

variable {mechanism : Mechanism μ} {options : Options} {maxTransitions : Nat}
  {engine engine' : Driver (μ × List Call) CardMemory} {memory memory' : CardMemory}

theorem effect_of_presents {step : Step} {token : Bytes} {selection : Selection}
    {stored : PasswordState} {read : CardMemory} {result : Except Fault (Option Authentication)}
    {data : μ × List Call} (hstorage : engine.data.storage = some Storage.memory)
    (hpresents : Presents engine.data memory step token selection stored read)
    (hcall : mechanism.recorded.mutualAuthenticate token engine.data.mechanism = (result, data))
    (hdata : engine'.data.mechanism = data)
    (hothers : ∀ other, other ≠ selection.password →
      memory'.passwords other = memory.passwords other)
    (hspends : Spends stored.retryCounter
      ((memory'.passwords selection.password).bind (·.retryCounter)) result) :
    Effect engine memory engine' memory' := by
  subst hdata
  obtain ⟨hstored, _⟩ := readPassword_memory hstorage hpresents.read
  exact .verified (calls_of_mutualAuthenticate hcall) hpresents.selected hstored
    hpresents.unblocked hpresents.resumed hothers hspends

theorem effect_of_grants {step : Step} {token : Bytes} {selection : Selection}
    {stored : PasswordState} {authentication : Authentication} {data : μ × List Call}
    {read : CardMemory} (hstorage : engine.data.storage = some Storage.memory)
    (hgrants : Grants mechanism.recorded engine.data memory step token selection stored
      authentication data read memory')
    (hdata : engine'.data.mechanism = data) : Effect engine memory engine' memory' := by
  obtain ⟨hpresents, hcall, hrestored⟩ := hgrants
  obtain ⟨hstored, rfl⟩ := readPassword_memory hstorage hpresents.read
  obtain ⟨_, hothers⟩ := restoreCounter_memory hstorage hstored hrestored
  exact effect_of_presents hstorage hpresents hcall hdata hothers trivial

theorem effect_of_verifies {step : Step} {outcome : Outcome (μ × List Call) CardMemory}
    (hstorage : engine.data.storage = some Storage.memory)
    (hverifies : Verifies mechanism.recorded engine.data memory step outcome)
    (hdata : engine'.data.mechanism = outcome.pace.mechanism) :
    Effect engine memory engine' outcome.world := by
  cases hverifies with
  | unverified hpresents hcall =>
    obtain ⟨hstored, rfl⟩ := readPassword_memory hstorage hpresents.read
    refine effect_of_presents hstorage hpresents hcall hdata (fun _ _ => rfl) ?_
    rw [world_fail, hstored]
    rfl
  | rejected hpresents hcall hspent =>
    obtain ⟨hstored, rfl⟩ := readPassword_memory hstorage hpresents.read
    obtain ⟨_, hothers, hcounter⟩ :=
      spendAttempt_memory hstorage hstored hpresents.unblocked hspent
    exact effect_of_presents hstorage hpresents hcall hdata hothers hcounter
  | unspent hpresents hcall hspent =>
    obtain ⟨hstored, rfl⟩ := readPassword_memory hstorage hpresents.read
    obtain ⟨hok, _⟩ := spendAttempt_memory hstorage hstored hpresents.unblocked hspent
    cases hok
  | accepted hpresents hcall hrestored =>
    exact effect_of_grants hstorage ⟨hpresents, hcall, hrestored⟩ hdata
  | unrestored hpresents hcall hrestored =>
    obtain ⟨hstored, rfl⟩ := readPassword_memory hstorage hpresents.read
    obtain ⟨hok, _⟩ := restoreCounter_memory hstorage hstored hrestored
    cases hok

theorem effect_of_steps {input : Emulation.Input}
    (hrests : Rests Storage.memory options maxTransitions engine)
    (hsteps : Emulation.Steps mechanism.recorded engine memory input engine' memory') :
    Effect engine memory engine' memory' := by
  have hstorage := hrests.storage
  cases hsteps with
  | malformed => exact .prepared (List.append_nil _).symm rfl rfl
  | resetHistory => exact .prepared (List.append_nil _).symm rfl rfl
  | reset =>
    have hcalls : (engine.data.endSession mechanism.recorded).calls =
        engine.data.calls ++ [.reset] := rfl
    exact .prepared hcalls rfl rfl
  | command hanswers =>
    cases hanswers with
    | untouched => exact .prepared (List.append_nil _).symm rfl rfl
    | unannounced _ _ hgrants | announced _ _ hgrants =>
      exact effect_of_grants hstorage hgrants rfl
    | settled _ hacts =>
      rcases verifies_or_prepares hacts with ⟨_, hverifies⟩ | ⟨hreads, _, made, hcalls, hprepares⟩
      · exact effect_of_verifies hstorage hverifies rfl
      · rw [hstorage] at hreads
        refine .prepared hcalls ?_ (reads_memory hreads)
        rw [List.filterMap_eq_nil_iff]
        intro call hcall
        cases call with
        | mutualAuthenticate => exact (hprepares _ hcall).elim
        | _ => rfl

namespace Emulation

/-- What a turn means for the counter of one password. -/
inductive Counts (password : PasswordRef) (turn : Exchange μ) (resumed : Prop) : Prop
  | skipped (hattempts : attempts password turn = [])
      (hcounter : turn.after.counter? password = turn.before.counter? password)
  | attempted {result : Except Fault (Option Authentication)}
      (hattempts : attempts password turn = [result])
      (hunblocked : turn.before.counter? password ≠ some 0)
      (hresumed : password = .pin → turn.before.counter? password = some 1 → resumed)
      (hspends : Spends (turn.before.counter? password) (turn.after.counter? password) result)

variable {turn : Exchange μ}

theorem calls_of_handlers {emulation : Emulation (μ × List Call) CardMemory}
    (h : emulation.card.handlers = [engine]) : emulation.calls = engine.data.calls := by
  rw [calls, h]
  simp

theorem selected?_of_handlers {emulation : Emulation μ CardMemory}
    {engine : Driver μ CardMemory} (h : emulation.card.handlers = [engine]) :
    emulation.selected? = engine.data.selection.map (·.password) := by
  rw [selected?, h]
  rfl

theorem verifications_eq {made : List Call} (hbefore : turn.before.card.handlers = [engine])
    (hafter : turn.after.card.handlers = [engine'])
    (hcalls : engine'.data.calls = engine.data.calls ++ made) :
    verifications turn = made.filterMap Call.verification? := by
  rw [verifications, calls_of_handlers hbefore, calls_of_handlers hafter, hcalls, List.drop_left]

theorem counts_of_effect (hbefore : turn.before.card.handlers = [engine])
    (hafter : turn.after.card.handlers = [engine'])
    (heffect : Effect engine turn.before.world engine' turn.after.world) (password : PasswordRef) :
    Counts password turn (engine.data.canAuthenticated = true) := by
  cases heffect with
  | prepared hcalls hmade hmemory =>
    refine .skipped ?_ ?_
    · rw [attempts, verifications_eq hbefore hafter hcalls, hmade]
      exact ite_self []
    · rw [counter?, counter?, hmemory]
  | @verified token selection stored result hcalls hselection hstored hblocked hresumed hothers
      hspends =>
    have hselected : turn.before.selected? = some selection.password := by
      rw [selected?_of_handlers hbefore, hselection]
      rfl
    by_cases hpassword : password = selection.password
    · subst hpassword
      have hcounter : turn.before.counter? selection.password = stored.retryCounter := by
        rw [counter?, hstored]
        rfl
      have hattempts : attempts selection.password turn = [result] := by
        rw [attempts, if_pos hselected, verifications_eq hbefore hafter hcalls]
        rfl
      refine .attempted hattempts ?_ ?_ ?_
      · rw [hcounter]
        simpa [PasswordState.isBlocked] using hblocked
      · intro hpin hone
        rw [hcounter] at hone
        simpa [isSuspended, hpin, PasswordState.isSuspended, hone] using hresumed
      · rw [hcounter]
        exact hspends
    · refine .skipped ?_ ?_
      · rw [attempts, hselected, if_neg]
        simpa using Ne.symm hpassword
      · rw [counter?, counter?, hothers password hpassword]

/-! ### Runs -/

theorem rejections_concat (password : PasswordRef) (past : List (Exchange μ)) (turn : Exchange μ) :
    rejections password (past ++ [turn]) =
      rejections password past +
        (attempts password turn).countP fun result => result matches .ok none := by
  unfold rejections
  rw [List.flatMap_append, List.countP_append, List.flatMap_singleton]

theorem succeeded_concat {password : PasswordRef} {past : List (Exchange μ)} {turn : Exchange μ} :
    Succeeded password (past ++ [turn]) ↔ Succeeded password past ∨
      ∃ authentication, .ok (some authentication) ∈ attempts password turn := by
  unfold Succeeded
  rw [List.flatMap_append, List.flatMap_singleton]
  constructor
  · rintro ⟨authentication, hmem⟩
    rcases List.mem_append.mp hmem with hmem | hmem
    · exact .inl ⟨authentication, hmem⟩
    · exact .inr ⟨authentication, hmem⟩
  · rintro (⟨authentication, hmem⟩ | ⟨authentication, hmem⟩)
    · exact ⟨authentication, List.mem_append_left _ hmem⟩
    · exact ⟨authentication, List.mem_append_right _ hmem⟩

theorem inSession_concat {past : List (Exchange μ)} {turn : Exchange μ}
    (hinput : turn.input ≠ .reset) : inSession (past ++ [turn]) = inSession past ++ [turn] := by
  unfold inSession
  rw [List.rtakeWhile_concat, if_pos]
  cases hcases : turn.input with
  | reset => exact absurd hcases hinput
  | _ => rfl

theorem Succeeded.of_inSession {password : PasswordRef} {past : List (Exchange μ)}
    (h : Succeeded password (inSession past)) : Succeeded password past := by
  obtain ⟨authentication, hmem⟩ := h
  obtain ⟨turn, hturn, hmem⟩ := List.mem_flatMap.mp hmem
  exact ⟨authentication,
    List.mem_flatMap.mpr ⟨turn, (List.rtakeWhile_suffix _ _).subset hturn, hmem⟩⟩

/-- What the engine of a card is like between two inputs. -/
structure Driven (options : Options) (maxTransitions : Nat) (past : List (Exchange μ))
    (emulation : Emulation (μ × List Call) CardMemory)
    (engine : Driver (μ × List Call) CardMemory) : Prop where
  handlers : emulation.card.handlers = [engine]
  rests : Rests Storage.memory options maxTransitions engine
  resumed : engine.data.canAuthenticated = true → Succeeded .can (inSession past)

theorem rests_of_steps {input : Input}
    (hrests : Rests Storage.memory options maxTransitions engine)
    (hsteps : Steps mechanism.recorded engine memory input engine' memory') :
    Rests Storage.memory options maxTransitions engine' := by
  cases hsteps with
  | malformed => exact hrests
  | command hanswers => exact rests_of_answers hrests hanswers
  | reset => exact ⟨hrests.registry, hrests.limit, hrests.options, hrests.storage, nofun⟩
  | resetHistory =>
    exact ⟨hrests.registry, hrests.limit, hrests.options, hrests.storage, hrests.state⟩

theorem resumed_of_steps {past : List (Exchange μ)}
    {emulation emulation' : Emulation (μ × List Call) CardMemory} {input : Input}
    {output : Option Response} (hdriven : Driven options maxTransitions past emulation engine)
    (hhandlers : emulation'.card.handlers = [engine'])
    (hsteps : Steps mechanism.recorded engine emulation.world input engine' emulation'.world)
    (hcan : engine'.data.canAuthenticated = true) :
    Succeeded .can (inSession (past ++ [⟨emulation, input, output, emulation'⟩])) := by
  have hkept : engine.data.canAuthenticated = true → input ≠ .reset →
      Succeeded .can (inSession (past ++ [⟨emulation, input, output, emulation'⟩])) := by
    intro hbefore hinput
    rw [inSession_concat hinput]
    exact succeeded_concat.mpr (.inl (hdriven.resumed hbefore))
  generalize emulation'.world = world' at hsteps
  cases hsteps with
  | malformed => exact hkept hcan nofun
  | resetHistory => exact hkept hcan nofun
  | reset => cases hcan
  | @command bytes _ _ _ _ hanswers =>
    have hinput : Input.handle bytes ≠ .reset := nofun
    rcases resumed_of_answers hanswers hcan with
      hbefore | ⟨token, authentication, selection, hcalls, hselection, hpassword⟩
    · exact hkept hbefore hinput
    · rw [inSession_concat hinput]
      refine succeeded_concat.mpr (.inr ⟨authentication, ?_⟩)
      rw [attempts, selected?_of_handlers hdriven.handlers, hselection, if_pos]
      · rw [verifications_eq hdriven.handlers hhandlers hcalls]
        exact List.mem_singleton_self _
      · rw [Option.map_some, hpassword]

/-- What holds of the counters at a moment of a run that started with `first`. -/
structure Counted (first : Emulation (μ × List Call) CardMemory) (past : List (Exchange μ))
    (now : Emulation (μ × List Call) CardMemory) : Prop where
  /-- As long as no token was right, the counter and the tokens rejected add up. -/
  total : ∀ password start, first.counter? password = some start → ¬Succeeded password past →
    ∃ counter, now.counter? password = some counter ∧
      counter.toNat + rejections password past = start.toNat
  /-- A counter that has come to zero stays there. -/
  blocked : ∀ password earlier, earlier <+: past →
    (stateAfter first earlier).counter? password = some 0 → now.counter? password = some 0
  /-- The last attempt of the identification number is kept for after the access number. -/
  suspended : ∀ start, first.counter? .pin = some start → start ≠ 0 → ¬Succeeded .pin past →
    ¬Succeeded .can past → now.counter? .pin ≠ some 0

theorem counted_start (first : Emulation (μ × List Call) CardMemory) : Counted first [] first := by
  refine ⟨?_, ?_, ?_⟩
  · intro password start hstart _
    exact ⟨start, hstart, rfl⟩
  · intro password earlier hearlier hzero
    rw [List.prefix_nil.mp hearlier] at hzero
    exact hzero
  · intro start hstart hpositive _ _ hzero
    rw [hstart] at hzero
    exact hpositive (Option.some.inj hzero)

theorem toNat_sub_one {counter : UInt8} (h : counter ≠ 0) :
    (counter - 1).toNat + 1 = counter.toNat := by
  have hpositive : counter.toNat ≠ 0 := fun hzero => h (UInt8.toNat_inj.mp hzero)
  have hbound := counter.toNat_lt
  rw [UInt8.toNat_sub]
  simp only [UInt8.reduceToNat]
  omega

theorem counted_concat {first : Emulation (μ × List Call) CardMemory} {past : List (Exchange μ)}
    {turn : Exchange μ} {resumed : Prop} (hcounted : Counted first past turn.before)
    (hresumed : resumed → Succeeded .can past)
    (hcounts : ∀ password, Counts password turn resumed) :
    Counted first (past ++ [turn]) turn.after := by
  refine ⟨?_, ?_, ?_⟩
  · intro password start hstart hfailed
    rw [succeeded_concat, not_or] at hfailed
    obtain ⟨counter, hcounter, htotal⟩ := hcounted.total password start hstart hfailed.1
    rw [rejections_concat]
    cases hcounts password with
    | skipped hattempts hsame =>
      refine ⟨counter, hsame.trans hcounter, ?_⟩
      rw [hattempts]
      exact htotal
    | @attempted result hattempts hunblocked _ hspends =>
      rw [hcounter] at hspends hunblocked
      rw [hattempts] at hfailed ⊢
      rcases result with fault | _ | authentication
      · exact ⟨counter, hspends, htotal⟩
      · refine ⟨counter - 1, hspends, ?_⟩
        have hpositive : counter ≠ 0 := fun h => hunblocked (congrArg some h)
        have hlower := toNat_sub_one hpositive
        have hone : (List.countP (fun result : Except Fault (Option Authentication) =>
            result matches .ok none) [.ok none]) = 1 := rfl
        rw [hone]
        omega
      · exact absurd ⟨authentication, List.mem_singleton_self _⟩ hfailed.2
  · intro password earlier hearlier hzero
    rcases List.prefix_concat_iff.mp hearlier with rfl | hearlier
    · rwa [stateAfter_concat] at hzero
    · have hblocked := hcounted.blocked password earlier hearlier hzero
      cases hcounts password with
      | skipped _ hsame => exact hsame.trans hblocked
      | attempted _ hunblocked => exact absurd hblocked hunblocked
  · intro start hstart hpositive hpin hcan hzero
    rw [succeeded_concat, not_or] at hpin hcan
    have hbefore := hcounted.suspended start hstart hpositive hpin.1 hcan.1
    cases hcounts .pin with
    | skipped _ hsame => exact hbefore (hsame.symm.trans hzero)
    | @attempted result hattempts _ hlast hspends =>
      rcases result with fault | _ | authentication
      · exact hbefore (hspends.symm.trans hzero)
      · obtain ⟨counter, hcounter, hlower⟩ :=
          Option.map_eq_some_iff.mp (hspends.symm.trans hzero)
        have hone : counter = 1 := by
          rw [← UInt8.sub_add_cancel counter 1, hlower]
          rfl
        rw [hone] at hcounter
        exact hcan.1 (hresumed (hlast rfl hcounter))
      · rw [hattempts] at hpin
        exact hpin.2 ⟨authentication, List.mem_singleton_self _⟩

/-- What guessing comes to at a moment of a run that started with `first`. -/
structure Bounded (first : Emulation (μ × List Call) CardMemory) (past future : List (Exchange μ)) :
    Prop where
  /-- As long as no token was right, the counter is what the tokens rejected have left of it. -/
  counter : ∀ password start, first.counter? password = some start → ¬Succeeded password past →
    ∃ counter, (stateAfter first past).counter? password = some counter ∧
      counter.toNat = start.toNat - rejections password past
  bound : ∀ password start, first.counter? password = some start → ¬Succeeded password past →
    rejections password past ≤ start.toNat
  falling : ∀ password start, first.counter? password = some start → ¬Succeeded password past →
    ∀ earlier, earlier <+: past → ∃ higher lower,
      (stateAfter first earlier).counter? password = some higher ∧
      (stateAfter first past).counter? password = some lower ∧ lower ≤ higher
  /-- A token is verified for a password that was selected. -/
  accounted : ∀ turn rest, future = turn :: rest → verifications turn ≠ [] →
    turn.before.selected? ≠ none
  blocked : ∀ turn rest, future = turn :: rest → ∀ password earlier, earlier <+: past →
    (stateAfter first earlier).counter? password = some 0 → attempts password turn = []
  suspended : ∀ turn rest, future = turn :: rest → turn.before.counter? .pin = some 1 →
    attempts .pin turn ≠ [] → Succeeded .can (inSession past)
  kept : ∀ start, first.counter? .pin = some start → ¬Succeeded .pin past →
    ¬Succeeded .can past → rejections .pin past ≤ start.toNat - 1

theorem rejections_le_of_prefix {password : PasswordRef} {earlier past : List (Exchange μ)}
    (h : earlier <+: past) : rejections password earlier ≤ rejections password past := by
  obtain ⟨later, rfl⟩ := h
  unfold rejections
  rw [List.flatMap_append, List.countP_append]
  exact Nat.le_add_right _ _

theorem Succeeded.of_prefix {password : PasswordRef} {earlier past : List (Exchange μ)}
    (h : earlier <+: past) (hsucceeded : Succeeded password earlier) :
    Succeeded password past := by
  obtain ⟨later, rfl⟩ := h
  obtain ⟨authentication, hmem⟩ := hsucceeded
  refine ⟨authentication, ?_⟩
  rw [List.flatMap_append]
  exact List.mem_append_left _ hmem

theorem Counted.counter {first now : Emulation (μ × List Call) CardMemory}
    {past : List (Exchange μ)} {password : PasswordRef} {start : UInt8}
    (hcounted : Counted first past now) (hstart : first.counter? password = some start)
    (hfailed : ¬Succeeded password past) :
    ∃ counter, now.counter? password = some counter ∧
      counter.toNat = start.toNat - rejections password past := by
  obtain ⟨counter, hcounter, hsum⟩ := hcounted.total password start hstart hfailed
  refine ⟨counter, hcounter, ?_⟩
  omega

theorem Counted.bound {first now : Emulation (μ × List Call) CardMemory}
    {past : List (Exchange μ)} {password : PasswordRef} {start : UInt8}
    (hcounted : Counted first past now) (hstart : first.counter? password = some start)
    (hfailed : ¬Succeeded password past) : rejections password past ≤ start.toNat := by
  obtain ⟨counter, _, hsum⟩ := hcounted.total password start hstart hfailed
  omega

/-- A counter that adds up with more rejections is a lower one. -/
theorem Counted.falling {first between now : Emulation (μ × List Call) CardMemory}
    {earlier past : List (Exchange μ)} {password : PasswordRef} {start : UInt8}
    (hcounted : Counted first past now) (hbetween : Counted first earlier between)
    (hearlier : earlier <+: past) (hstart : first.counter? password = some start)
    (hfailed : ¬Succeeded password past) :
    ∃ higher lower, between.counter? password = some higher ∧
      now.counter? password = some lower ∧ lower ≤ higher := by
  have hfewer : rejections password earlier ≤ rejections password past :=
    rejections_le_of_prefix hearlier
  have hfailedThen : ¬Succeeded password earlier :=
    fun hsucceeded => hfailed (hsucceeded.of_prefix hearlier)
  obtain ⟨lower, hlower, hsum⟩ := hcounted.total password start hstart hfailed
  obtain ⟨higher, hhigher, hsumThen⟩ := hbetween.total password start hstart hfailedThen
  refine ⟨higher, lower, hhigher, hlower, ?_⟩
  rw [UInt8.le_iff_toNat_le]
  omega

theorem Counted.kept {first now : Emulation (μ × List Call) CardMemory}
    {past : List (Exchange μ)} {start : UInt8} (hcounted : Counted first past now)
    (hstart : first.counter? .pin = some start) (hpin : ¬Succeeded .pin past)
    (hcan : ¬Succeeded .can past) : rejections .pin past ≤ start.toNat - 1 := by
  obtain ⟨counter, hcounter, hsum⟩ := hcounted.total .pin start hstart hpin
  by_cases hzero : start = 0
  · rw [hzero] at hsum
    have hnone : (0 : UInt8).toNat = 0 := rfl
    omega
  · have hleft := hcounted.suspended start hstart hzero hpin hcan
    have hpositive : counter.toNat ≠ 0 := by
      intro hnone
      have hzero : counter = 0 := UInt8.toNat_inj.mp hnone
      rw [hcounter, hzero] at hleft
      exact hleft rfl
    omega

/-- What holds between the inputs of a card. -/
structure Counting (options : Options) (maxTransitions : Nat)
    (first : Emulation (μ × List Call) CardMemory) (past : List (Exchange μ))
    (now : Emulation (μ × List Call) CardMemory) : Prop where
  driven : ∃ engine, Driven options maxTransitions past now engine
  counted : Counted first past now

theorem accounted_of_effect (hbefore : turn.before.card.handlers = [engine])
    (hafter : turn.after.card.handlers = [engine'])
    (heffect : Effect engine turn.before.world engine' turn.after.world)
    (hverifications : verifications turn ≠ []) : turn.before.selected? ≠ none := by
  cases heffect with
  | prepared hcalls hmade =>
    rw [verifications_eq hbefore hafter hcalls] at hverifications
    exact absurd hmade hverifications
  | verified _ hselection =>
    rw [selected?_of_handlers hbefore, hselection]
    exact nofun

/-- What an input does to a card, in terms of its passwords. -/
structure Tries (options : Options) (maxTransitions : Nat) (past : List (Exchange μ))
    (turn : Exchange μ) (engine : Driver (μ × List Call) CardMemory) : Prop where
  driven : Driven options maxTransitions past turn.before engine
  counts : ∀ password, Counts password turn (engine.data.canAuthenticated = true)
  accounted : verifications turn ≠ [] → turn.before.selected? ≠ none

theorem counting_step {first now : Emulation (μ × List Call) CardMemory} {past : List (Exchange μ)}
    (mechanism : Mechanism μ) (hcounting : Counting options maxTransitions first past now)
    (input : Input) :
    ∃ output next, now.step mechanism.recorded input = .ok (output, next) ∧
      Counting options maxTransitions first (past ++ [⟨now, input, output, next⟩]) next ∧
      ∃ engine, Tries options maxTransitions past ⟨now, input, output, next⟩ engine := by
  obtain ⟨⟨engine, hdriven⟩, hcounted⟩ := hcounting
  obtain ⟨output, next, engine', hstep, hhandlers, hsteps⟩ :=
    steps_step mechanism.recorded hdriven.handlers input
  have heffect := effect_of_steps hdriven.rests hsteps
  have htries : Tries options maxTransitions past ⟨now, input, output, next⟩ engine :=
    ⟨hdriven, counts_of_effect hdriven.handlers hhandlers heffect,
      accounted_of_effect hdriven.handlers hhandlers heffect⟩
  have hnext : Driven options maxTransitions (past ++ [⟨now, input, output, next⟩]) next engine' :=
    ⟨hhandlers, rests_of_steps hdriven.rests hsteps, resumed_of_steps hdriven hhandlers hsteps⟩
  have hresumed : engine.data.canAuthenticated = true → Succeeded .can past :=
    fun hcan => (hdriven.resumed hcan).of_inSession
  exact ⟨output, next, hstep,
    ⟨⟨engine', hnext⟩, counted_concat hcounted hresumed htries.counts⟩, engine, htries⟩

theorem tries_of_step {first : Emulation (μ × List Call) CardMemory} {past : List (Exchange μ)}
    (hcounting : Counting options maxTransitions first past turn.before)
    (hstep : turn.before.step mechanism.recorded turn.input = .ok (turn.output, turn.after)) :
    ∃ engine, Tries options maxTransitions past turn engine := by
  obtain ⟨output, next, hnext, _, engine, htries⟩ := counting_step mechanism hcounting turn.input
  rw [hstep] at hnext
  cases hnext
  exact ⟨engine, htries⟩

/-- Whatever the mechanism answers, a card that keeps its state in memory and has no protocol but
PACE lets a password be guessed no more often than its counter says, and the identification number
once less, unless the access number is known. -/
theorem bounded_of_run (mechanism : Mechanism μ) (data : μ) (paceOptions : Options)
    (options : Card.Options) (memory : CardMemory) (inputs : List Input) :
    ∃ turns, run (step mechanism.recorded)
        (start mechanism.recorded Storage.memory (data, []) paceOptions options memory) inputs =
          .ok turns ∧
      ∀ past future, turns = past ++ future →
        Bounded (start mechanism.recorded Storage.memory (data, []) paceOptions options memory)
          past future := by
  let first := start mechanism.recorded Storage.memory (data, []) paceOptions options memory
  have hfirst : Counting paceOptions options.maxTransitions first [] first :=
    ⟨⟨_, rfl, ⟨rfl, rfl, rfl, rfl, nofun⟩, nofun⟩, counted_start first⟩
  have hstep : ∀ past now input, Counting paceOptions options.maxTransitions first past now →
      ∃ output next, now.step mechanism.recorded input = .ok (output, next) ∧
        Counting paceOptions options.maxTransitions first (past ++ [⟨now, input, output, next⟩])
          next := by
    intro past now input hcounting
    obtain ⟨output, next, hnext, hkept, _⟩ := counting_step mechanism hcounting input
    exact ⟨output, next, hnext, hkept⟩
  obtain ⟨turns, hrun, hturns⟩ := run_of_invariant hfirst hstep inputs
  refine ⟨turns, hrun, ?_⟩
  intro past future hsplit
  obtain ⟨hnow, hnext⟩ := hturns past future hsplit
  constructor
  case counter => exact fun _ _ hstart hfailed => hnow.counted.counter hstart hfailed
  case bound => exact fun _ _ hstart hfailed => hnow.counted.bound hstart hfailed
  case falling =>
    intro password start hstart hfailed earlier hearlier
    have hbefore := hearlier
    obtain ⟨later, rfl⟩ := hearlier
    obtain ⟨hthen, _⟩ := hturns earlier (later ++ future) (by rw [hsplit, List.append_assoc])
    exact hnow.counted.falling hthen.counted hbefore hstart hfailed
  case accounted =>
    intro turn rest hfuture
    obtain ⟨hbefore, hturn⟩ := hnext turn rest hfuture
    obtain ⟨engine, htries⟩ := tries_of_step hbefore hturn
    exact htries.accounted
  case blocked =>
    intro turn rest hfuture password earlier hearlier hzero
    obtain ⟨hbefore, hturn⟩ := hnext turn rest hfuture
    obtain ⟨engine, htries⟩ := tries_of_step hbefore hturn
    have hblocked := hbefore.counted.blocked password earlier hearlier hzero
    cases htries.counts password with
    | skipped hattempts => exact hattempts
    | attempted _ hunblocked => exact absurd hblocked hunblocked
  case suspended =>
    intro turn rest hfuture hone hattempted
    obtain ⟨hbefore, hturn⟩ := hnext turn rest hfuture
    obtain ⟨engine, htries⟩ := tries_of_step hbefore hturn
    cases htries.counts .pin with
    | skipped hattempts => exact absurd hattempts hattempted
    | attempted _ _ hresumed => exact htries.driven.resumed (hresumed rfl hone)
  case kept => exact fun _ hstart hpin hcan => hnow.counted.kept hstart hpin hcan

end Emulation

end SmartCard.Pace
