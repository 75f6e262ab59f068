import ChoiceTree.Fault

/-!
# Bit addresses

Positions in the bit space are numbers below `2 ^ 64`. Sums of such numbers are
checked, so that a position is never silently taken modulo the bound.
-/

namespace ChoiceTree.Address

/-- The bound of bit positions and of widths, `2 ^ 64`. -/
def bound : Nat := 18446744073709551616

/-- The position itself, a fault if it reaches the bound: positions only come
from sums. -/
def check (position : Nat) : Except Fault Nat :=
  if position < bound then .ok position else .error .additionOverflow

/-- The sum of a position and a distance, a fault if it reaches the bound. -/
def add (position distance : Nat) : Except Fault Nat := check (position + distance)

theorem check_eq_ok {position : Nat} (h : position < bound) : check position = .ok position :=
  if_pos h

/-- A sum below the bound is exact. -/
theorem add_eq_ok {position distance : Nat} (h : position + distance < bound) :
    add position distance = .ok (position + distance) := check_eq_ok h

end ChoiceTree.Address
