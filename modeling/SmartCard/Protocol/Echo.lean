import SmartCard.Protocol.Basic

/-!
The smallest protocol: one instruction, answered with a fixed status word.
-/

namespace SmartCard

/-- An instruction and the status word that answers it. -/
structure Echo where
  ins : UInt8
  status : StatusWord

namespace Echo

def shapeName : String := "Echo"

/-- The protocol, which has a single state. -/
def protocol {W : Type} : Protocol Unit Unit Echo W where
  name _ := "echo"
  shapes echo := [{ Shape.any shapeName with ins := .required echo.ins }]
  initial := ()
  mode _ := ()
  transition echo world step _ :=
    if step.hasShape shapeName then
      .ok ⟨.ok (some ()), echo, world,
        step.context.respond step.protocol "echo" (.ofStatus echo.status), true⟩
    else
      .ok ⟨.ok none, echo, world, step.context, false⟩

end Echo

end SmartCard
