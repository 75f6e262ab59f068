/-!
# Selections

What a select decodes to when it is active.
-/

namespace ChoiceTree

/-- The chosen value or values. -/
inductive Selection (V : Type) where
  | one (value : V)
  | many (values : List V)
  deriving DecidableEq

namespace Selection

variable {V : Type}

/-- The value, if exactly one is asked for and given. -/
def one? : Selection V → Option V
  | .one v => some v
  | .many _ => none

/-- The chosen values in order. -/
def toList : Selection V → List V
  | .one v => [v]
  | .many vs => vs

end Selection

end ChoiceTree
