/-!
# Numerals

Floating-point numbers as far as choices need them: they are compared and
written out, never computed with. A number is known by its canonical numeral,
the shortest decimal that reads back as it.
-/

namespace ChoiceTree

/-- A floating-point number by its canonical numeral. -/
inductive Numeral where
  /-- Not a number, and equal to none. -/
  | nan
  /-- Either zero; the two are equal, but are written apart. -/
  | zero (negative : Bool)
  /-- Any other number; different numbers have different numerals. -/
  | other (numeral : String)

namespace Numeral

/-- The number that a canonical numeral stands for. -/
def ofText : String → Numeral
  | "NaN" => .nan
  | "0.0" => .zero false
  | "-0.0" => .zero true
  | numeral => .other numeral

def text : Numeral → String
  | .nan => "NaN"
  | .zero negative => if negative then "-0.0" else "0.0"
  | .other numeral => numeral

instance : BEq Numeral where
  beq
    | .zero _, .zero _ => true
    | .other a, .other b => a == b
    | _, _ => false

theorem beq_symm : ∀ {x y : Numeral}, (x == y) = true → (y == x) = true
  | .zero _, .zero _, h => h
  | .other a, .other b, h => show (b == a) = true from BEq.symm (show (a == b) = true from h)

theorem beq_trans : ∀ {x y z : Numeral}, (x == y) = true → (y == z) = true → (x == z) = true
  | .zero _, .zero _, .zero _, _, h => h
  | .other a, .other b, .other c, h, h' =>
    show (a == c) = true from BEq.trans (show (a == b) = true from h) (show (b == c) = true from h')

instance : PartialEquivBEq Numeral where
  symm := beq_symm
  trans := beq_trans

end Numeral

end ChoiceTree
