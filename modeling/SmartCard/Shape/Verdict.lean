import SmartCard.StatusWord

/-!
Verdicts: the status word proposed for a command, and why.
-/

namespace SmartCard

/-- The outcome of matching a command. -/
structure Verdict where
  status : StatusWord
  diagnostic : String
deriving DecidableEq, Repr

namespace Verdict

def success : Verdict :=
  ⟨.success, "match"⟩

def isMatch (verdict : Verdict) : Bool :=
  verdict.status.isSuccess

def text (verdict : Verdict) : String :=
  verdict.diagnostic ++ " (" ++ verdict.status.text ++ ")"

end Verdict

end SmartCard
