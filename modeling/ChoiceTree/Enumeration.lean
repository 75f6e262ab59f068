import ChoiceTree.Assignment.BitArray
import ChoiceTree.Model

/-!
# Enumeration of assignments

All assignments of a given width, counted upwards: bit `i` of the number of an
assignment is its bit `i`. A model is satisfied by some of those of its own
width.
-/

namespace ChoiceTree

/-- All bit arrays of the given size. -/
def BitArray.all (size : Nat) : List BitArray := (List.range (Nat.pow 2 size)).map (ofMask size)

namespace Model

/-- All assignments of the model's width, each with whether it satisfies the
model. -/
def verdicts (m : Model) : Except Fault (List (BitArray × Bool)) :=
  (BitArray.all m.width).mapM fun a => do return (a, ← m.isSatisfied a)

/-- The assignments of the model's width that satisfy it. -/
def solutions (m : Model) : Except Fault (List BitArray) := do
  return ((← m.verdicts).filter (·.2)).map (·.1)

end Model

end ChoiceTree
