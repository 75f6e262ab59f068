import ChoiceTree.Assignment

/-!
# Lists of truth values

The plainest assignment: bit `i` is entry `i` of a list, and a bit past the end
reads as unset. The window search is the bitwise one.
-/

namespace ChoiceTree

/-- An assignment that lists its bits. -/
structure Bools where
  bits : List Bool
  deriving DecidableEq

namespace Bools

instance : Assignment Bools where
  size a := a.bits.length
  isSet a index := .ok (a.bits.getD index false)

@[simp] theorem size_eq (a : Bools) : Assignment.size a = a.bits.length := rfl

@[simp] theorem isSet_eq (a : Bools) (index : Nat) :
    Assignment.isSet a index = .ok (a.bits.getD index false) := rfl

instance : LawfulAssignment Bools where
  isSet_ok _ _ _ := ⟨_, rfl⟩
  firstSet_eq _ _ _ := rfl

end Bools

end ChoiceTree
