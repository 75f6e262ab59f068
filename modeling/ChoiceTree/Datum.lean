import ChoiceTree.Numeral
import ChoiceTree.Text.Value

/-!
# Data

Values of several sorts, for models whose domains and payloads are only known
when they are read. Values of different sorts are never equal. Equality is
symmetric and transitive but not reflexive: a number that is not a number makes
every list that holds it different from itself.
-/

namespace ChoiceTree

/-- A value of one of several sorts. -/
inductive Datum where
  | unit
  | bool (value : Bool)
  | int (value : Int)
  | string (value : String)
  | char (value : Char)
  | number (value : Numeral)
  | list (items : List Datum)

namespace Datum

mutual

/-- Equality of data. -/
def same : Datum → Datum → Bool
  | .unit, .unit => true
  | .bool a, .bool b => a == b
  | .int a, .int b => a == b
  | .string a, .string b => a == b
  | .char a, .char b => a == b
  | .number a, .number b => a == b
  | .list as, .list bs => sameItems as bs
  | _, _ => false

/-- Equality of lists of data, item by item. -/
def sameItems : List Datum → List Datum → Bool
  | [], [] => true
  | a :: as, b :: bs => same a b && sameItems as bs
  | _, _ => false

end

instance : BEq Datum := ⟨same⟩

mutual

theorem same_symm : ∀ {x y : Datum}, same x y = true → same y x = true
  | .unit, .unit, h => h
  | .bool _, .bool _, h => BEq.symm h
  | .int _, .int _, h => BEq.symm h
  | .string _, .string _, h => BEq.symm h
  | .char _, .char _, h => BEq.symm h
  | .number _, .number _, h => BEq.symm h
  | .list _, .list _, h => sameItems_symm h

theorem sameItems_symm : ∀ {xs ys : List Datum}, sameItems xs ys = true → sameItems ys xs = true
  | [], [], h => h
  | _ :: _, _ :: _, h => by
    rw [sameItems, Bool.and_eq_true] at h
    rw [sameItems, same_symm h.1, sameItems_symm h.2, Bool.and_true]

end

mutual

theorem same_trans : ∀ {x y z : Datum}, same x y = true → same y z = true → same x z = true
  | .unit, .unit, .unit, _, h => h
  | .bool _, .bool _, .bool _, h, h' => BEq.trans h h'
  | .int _, .int _, .int _, h, h' => BEq.trans h h'
  | .string _, .string _, .string _, h, h' => BEq.trans h h'
  | .char _, .char _, .char _, h, h' => BEq.trans h h'
  | .number _, .number _, .number _, h, h' => BEq.trans h h'
  | .list _, .list _, .list _, h, h' => sameItems_trans h h'

theorem sameItems_trans : ∀ {xs ys zs : List Datum}, sameItems xs ys = true →
    sameItems ys zs = true → sameItems xs zs = true
  | [], [], [], _, h => h
  | _ :: _, _ :: _, _ :: _, h, h' => by
    rw [sameItems, Bool.and_eq_true] at h h'
    rw [sameItems, same_trans h.1 h'.1, sameItems_trans h.2 h'.2, Bool.and_true]

end

instance : PartialEquivBEq Datum where
  symm := same_symm
  trans := same_trans

mutual

/-- The text of a value: numbers as numerals, strings and characters quoted,
lists in brackets. -/
def text : Datum → String
  | .unit => "()"
  | .bool b => if b then "true" else "false"
  | .int n => toString n
  | .string s => Text.quoteString s
  | .char c => Text.quoteChar c
  | .number x => x.text
  | .list items => "[" ++ ", ".intercalate (itemTexts items) ++ "]"

/-- The texts of the items of a list. -/
def itemTexts : List Datum → List String
  | [] => []
  | item :: items => text item :: itemTexts items

end

end Datum

instance : ValueText Datum := ⟨Datum.text⟩

end ChoiceTree
