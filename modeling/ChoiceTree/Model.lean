import ChoiceTree.Decode

/-!
# Models

A model is a finished encoding: where the bits of each variable are, and which
constraints an assignment of these bits has to satisfy.
-/

namespace ChoiceTree

/-- A bit layout with the constraints over it. -/
structure Model where
  /-- The name of the root. -/
  root : String
  layout : Layout
  constraints : List Constraint
  deriving DecidableEq

namespace Model

variable {α V : Type} [Assignment α] [BEq V]

/-- The number of bits an assignment needs. -/
def width (m : Model) : Nat := m.layout.size

/-- Whether the assignment satisfies every constraint; none is looked at behind
the first that it violates. -/
def isSatisfied (m : Model) (a : α) : Except Fault Bool :=
  m.constraints.allM (Constraint.isSatisfied a)

/-- What a registered variable decodes to. -/
def valueOf (m : Model) (v : Variable V) (a : α) : Except Fault (Option (Decoded V)) :=
  if Assignment.size a < m.width then .error (.narrowAssignment (Assignment.size a) m.width)
  else do
    let offset ← match v.id? with
      | some id => m.layout.offsetOf id
      | none => pure 0
    let parent ← v.parentLiteral m.layout
    v.decode a offset parent

end Model

end ChoiceTree
