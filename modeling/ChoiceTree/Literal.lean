import ChoiceTree.Fault

/-!
# Signed literals over a flat bit space

A literal names a bit together with a polarity. Its signed form counts bits
from one: bit `i` is `i + 1` when positive and `-(i + 1)` when negative, the
convention of the DIMACS exchange format. The signed form always fits 32 bits.

The least such number is a literal too, but the bit it names has no positive
literal: `Literal.new` stops one bit earlier, and `negate` faults on it.
-/

namespace ChoiceTree

/-- A bit with a polarity, by its signed form. -/
structure Literal where
  /-- One more than the bit, negated for the negative polarity. -/
  dimacs : Int
  dimacs_ne_zero : dimacs ≠ 0
  le_dimacs : -2147483648 ≤ dimacs
  dimacs_lt : dimacs < 2147483648
  deriving DecidableEq

namespace Literal

/-- The bits below this one have literals of both polarities: the greatest
signed form is `2 ^ 31 - 1`. -/
def indexBound : Nat := 2147483647

/-- The literal of a bit that has literals of both polarities. -/
def ofIndex (index : Nat) (polarity : Bool) (h : index < indexBound) : Literal where
  dimacs := if polarity then (index : Int) + 1 else -((index : Int) + 1)
  dimacs_ne_zero := by split <;> omega
  le_dimacs := by unfold indexBound at h; split <;> omega
  dimacs_lt := by unfold indexBound at h; split <;> omega

/-- The literal of bit `index` with the given polarity. -/
def new (index : Nat) (polarity : Bool) : Except Fault Literal :=
  if h : index < indexBound then .ok (ofIndex index polarity h) else .error (.literalRange index)

def positive (index : Nat) : Except Fault Literal := new index true

def negative (index : Nat) : Except Fault Literal := new index false

/-- The literal with the given signed form. -/
def ofDimacs (value : Int32) : Except Fault Literal :=
  if h : value.toInt ≠ 0 then
    .ok { dimacs := value.toInt
          dimacs_ne_zero := h
          le_dimacs := value.le_toInt
          dimacs_lt := value.toInt_lt }
  else .error .zeroLiteral

/-- The bit that the literal names. -/
def index (l : Literal) : Nat := l.dimacs.natAbs - 1

def isPositive (l : Literal) : Bool := decide (0 < l.dimacs)

def isNegative (l : Literal) : Bool := decide (l.dimacs < 0)

/-- The literal of the same bit with the other polarity. -/
def negate (l : Literal) : Except Fault Literal :=
  if h : -2147483648 < l.dimacs then
    .ok { dimacs := -l.dimacs
          dimacs_ne_zero := by have := l.dimacs_ne_zero; omega
          le_dimacs := by have := l.dimacs_lt; omega
          dimacs_lt := by omega }
  else .error .negationOverflow

/-- The name of the bit, with `~` in front for the negative polarity. -/
def text (l : Literal) : String :=
  (if l.isNegative then "~" else "") ++ "x" ++ toString l.index

/-- Literals are ordered by their signed form. -/
instance : LE Literal := ⟨fun a b => a.dimacs ≤ b.dimacs⟩

instance (a b : Literal) : Decidable (a ≤ b) := inferInstanceAs (Decidable (a.dimacs ≤ b.dimacs))

theorem le_def {a b : Literal} : a ≤ b ↔ a.dimacs ≤ b.dimacs := Iff.rfl

/-- Literals with the same signed form are equal. -/
@[ext] theorem ext {a b : Literal} (h : a.dimacs = b.dimacs) : a = b := by
  cases a; cases b; cases h; rfl

@[simp] theorem index_ofIndex (index : Nat) (polarity : Bool) (h : index < indexBound) :
    (ofIndex index polarity h).index = index := by
  cases polarity <;> simp [ofIndex, Literal.index] <;> omega

@[simp] theorem isPositive_ofIndex (index : Nat) (polarity : Bool) (h : index < indexBound) :
    (ofIndex index polarity h).isPositive = polarity := by
  cases polarity
  · exact decide_eq_false (by show ¬(0 : Int) < -((index : Int) + 1); omega)
  · exact decide_eq_true (by show (0 : Int) < (index : Int) + 1; omega)

theorem new_eq_ok {index : Nat} {polarity : Bool} (h : index < indexBound) :
    new index polarity = .ok (ofIndex index polarity h) := dif_pos h

end Literal

end ChoiceTree
