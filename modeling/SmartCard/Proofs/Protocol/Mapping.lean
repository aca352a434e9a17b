import SmartCard.Protocol.Engine

/-!
# Maps between engines

A map between commands under way that commutes with a transition commutes with all transitions that
a command takes.
-/

namespace SmartCard.Engine

variable {S M σ τ V W : Type} [DecidableEq M] {source : Protocol S M σ V}
  {target : Protocol S M τ W} {name : String} {f : Run S M σ V → Run S M τ W}
  {P : Run S M σ V → Prop}

/-- `P` is what has to hold before a transition for the map to commute with it. -/
theorem loop_map (hstop : ∀ run, (f run).stop = run.stop)
    (hgiveUp : ∀ run, giveUp target name (f run) = (giveUp source name run).map f)
    (hadvance : ∀ run, P run → advance target name (f run) = (advance source name run).map f)
    (hnext : ∀ run next, P run → advance source name run = .ok next → next.stop = false → P next)
    (limit : Nat) {run : Run S M σ V} (hrun : 0 < limit → P run) :
    loop target name limit (f run) = (loop source name limit run).map f := by
  induction limit generalizing run with
  | zero =>
    rw [loop, loop]
    exact hgiveUp run
  | succ limit ih =>
    have hrun := hrun limit.succ_pos
    rw [loop, loop, hadvance run hrun]
    cases hresult : advance source name run with
    | error violation => rfl
    | ok next =>
      simp only [Except.map, hstop]
      split
      · rfl
      · next hgoes => exact ih fun _ => hnext run next hrun hresult (by simpa using hgoes)

end SmartCard.Engine
