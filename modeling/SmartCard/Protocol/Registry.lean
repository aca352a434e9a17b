import SmartCard.Shape.Basic

/-!
Shapes under their names.
-/

namespace SmartCard

/-- Shapes that can be looked up by name, one for each name. -/
structure Registry where
  shapes : List Shape

namespace Registry

def empty : Registry :=
  ⟨[]⟩

def get? (registry : Registry) (id : String) : Option Shape :=
  registry.shapes.find? (·.id = id)

/-- Registers a shape in the place of the one with its name. -/
def register (registry : Registry) (shape : Shape) : Registry :=
  ⟨shape :: registry.shapes.filter (·.id ≠ shape.id)⟩

def ofList (shapes : List Shape) : Registry :=
  shapes.foldl register empty

def size (registry : Registry) : Nat :=
  registry.shapes.length

def isEmpty (registry : Registry) : Bool :=
  registry.shapes.isEmpty

end Registry

end SmartCard
