import ChoiceTree.Literal

/-!
# Flat boolean assignments

An assignment is what a solver hands back: one truth value per bit of the bit
space. Anything that has a size and answers for single bits is an assignment.
The search for the lowest set bit of a window comes for free, bit by bit, and a
kind of assignment that can do better replaces it. `LawfulAssignment` says what
a replacement has to agree with.
-/

namespace ChoiceTree

/-- The least `d < count` such that bit `start + d` is set, looking at one bit
after the other and at none behind the first set one. -/
def scanBits (isSet : Nat → Except Fault Bool) (start : Nat) : Nat → Except Fault (Option Nat)
  | 0 => .ok none
  | count + 1 => do
      if ← isSet start then return some 0
      return (← scanBits isSet (start + 1) count).map (· + 1)

/-- The lowest set bit of the window `[start, stop)`, relative to `start`. An
empty window has none, whatever its ends; any other must end inside. -/
def firstSetBitwise (size : Nat) (isSet : Nat → Except Fault Bool) (start stop : Nat) :
    Except Fault (Option Nat) :=
  if stop ≤ start then .ok none
  else if stop ≤ size then scanBits isSet start (stop - start)
  else .error (.windowRange stop size)

/-- A read-only view of a flat boolean assignment. -/
class Assignment (α : Type) where
  /-- The number of bits. -/
  size : α → Nat
  /-- Whether the bit is set. -/
  isSet : α → Nat → Except Fault Bool
  /-- The lowest set bit of a window, relative to its start. -/
  firstSet : α → Nat → Nat → Except Fault (Option Nat) :=
    fun a => firstSetBitwise (size a) (isSet a)

namespace Assignment

variable {α β : Type}

/-- Whether there is no bit at all. -/
def isEmpty [Assignment α] (a : α) : Bool := size a == 0

/-- The literal of the bit with the polarity that the assignment gives it. -/
def literal [Assignment α] (a : α) (index : Nat) : Except Fault Literal := do
  Literal.new index (← isSet a index)

/-- An assignment of either kind is an assignment. -/
instance [Assignment α] [Assignment β] : Assignment (α ⊕ β) where
  size := Sum.elim size size
  isSet := Sum.elim isSet isSet
  firstSet := Sum.elim firstSet firstSet

end Assignment

/-- Assignments that answer for each of their bits and whose search for the
lowest set bit agrees with the bitwise one. -/
class LawfulAssignment (α : Type) [Assignment α] : Prop where
  isSet_ok (a : α) (index : Nat) (h : index < Assignment.size a) :
    ∃ b, Assignment.isSet a index = .ok b
  firstSet_eq (a : α) (start stop : Nat) :
    Assignment.firstSet a start stop =
      firstSetBitwise (Assignment.size a) (Assignment.isSet a) start stop

/-- Whether the assignment agrees with the literal. -/
def Literal.eval {α : Type} [Assignment α] (l : Literal) (a : α) : Except Fault Bool := do
  return (← Assignment.isSet a l.index) == l.isPositive

instance {α β : Type} [Assignment α] [Assignment β] [LawfulAssignment α] [LawfulAssignment β] :
    LawfulAssignment (α ⊕ β) where
  isSet_ok a index h := by
    cases a with
    | inl a => exact LawfulAssignment.isSet_ok a index h
    | inr b => exact LawfulAssignment.isSet_ok b index h
  firstSet_eq a start stop := by
    cases a with
    | inl a => exact LawfulAssignment.firstSet_eq a start stop
    | inr b => exact LawfulAssignment.firstSet_eq b start stop

end ChoiceTree
