import SmartCard.Card.Basic

/-!
A handler without a state machine: one instruction, answered with a fixed response. It logs what it
is asked to do.
-/

namespace SmartCard

/-- An instruction and the response that answers it. -/
structure Fixed where
  ins : UInt8
  response : Response
  log : List String

namespace Fixed

def name : String := "fixed"

def note (fixed : Fixed) (line : String) : Fixed :=
  { fixed with log := fixed.log ++ [name ++ ": " ++ line] }

/-- The lines logged so far, and the handler without them. -/
def takeLog (fixed : Fixed) : List String × Fixed :=
  (fixed.log, { fixed with log := [] })

def handler {W : Type} : Handler Fixed W where
  name _ := name
  process fixed world context :=
    .ok (fixed.note "process", world,
      if context.command.command.ins = fixed.ins then context.respond name name fixed.response
      else context)
  reset fixed world := (fixed.note "reset", world)
  resetHistory fixed := fixed.note "reset history"
  attach _ fixed := fixed.note "accessor"
  secInfos fixed _ := fixed.response.data.getD []

end Fixed

end SmartCard
