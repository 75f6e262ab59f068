import Mathlib
import ChoiceTree.Assignment.BitArray.Bits
import ChoiceTree.Assignment.BitArray.Search
import ChoiceTree.Constraint
import ChoiceTree.Proofs.Inversion

/-!
# Constraints under truth values

An assignment answers for its bits one request at a time, and a request may
fault. Inside its width a lawful assignment is a plain function from bits to
truth values, and everything that evaluates literals is a function of that one:

* `Literal.holds`, `Constraint.holds` — the meaning of a literal and of a
  constraint, by recursion on the constraint;
* `Constraint.isSatisfied_eq_holds` — evaluation never faults on bits inside
  the width, and gives the meaning;
* `Assignment.isFirst_firstSet` — the window search finds the first set bit.

Evaluation asks for single bits only, so it is the same for assignments whose search
does as it likes (`AnsweringAssignment`).
-/

namespace ChoiceTree

variable {α : Type} [Assignment α]

/-- Assignments that answer for each of their bits. -/
class AnsweringAssignment (α : Type) [Assignment α] : Prop where
  isSet_ok (a : α) (index : Nat) (h : index < Assignment.size a) :
    ∃ b, Assignment.isSet a index = .ok b

instance [LawfulAssignment α] : AnsweringAssignment α where
  isSet_ok := LawfulAssignment.isSet_ok

/-- The truth value of a bit; a bit that is not answered for counts as unset. -/
def Assignment.bit (a : α) (index : Nat) : Bool :=
  match Assignment.isSet a index with
  | .ok b => b
  | .error _ => false

/-- Inside its width an assignment answers with the truth value. -/
theorem Assignment.isSet_eq_bit [AnsweringAssignment α] (a : α) {index : Nat}
    (h : index < Assignment.size a) : Assignment.isSet a index = .ok (Assignment.bit a index) := by
  obtain ⟨b, hb⟩ := AnsweringAssignment.isSet_ok a index h
  rw [Assignment.bit, hb]

/-- The truth values of a bit array are its bits. -/
@[simp] theorem BitArray.bit_eq (a : BitArray) (index : Nat) :
    Assignment.bit a index = a.bit index := by
  show (match a.isSet index with | .ok b => b | .error _ => false) = a.bit index
  unfold BitArray.isSet
  by_cases h : index < a.size
  · rw [if_pos h]
  · rw [if_neg h, a.bit_of_size_le (Nat.not_lt.mp h)]

/-- An array that is given by its bits answers with them. -/
theorem BitArray.isSet_ofFn (p : Nat → Bool) {size index : Nat} (h : index < size) :
    Assignment.isSet (BitArray.ofFn size p) index = .ok (p index) := by
  have hinside : index < Assignment.size (BitArray.ofFn size p) := h
  rw [Assignment.isSet_eq_bit _ hinside, BitArray.bit_eq, BitArray.bit_ofFn, decide_eq_true h,
    Bool.true_and]

/-- A search that ends inside the width finds the first set bit of its window. -/
theorem Assignment.isFirst_firstSet [LawfulAssignment α] (a : α) (start stop : Nat)
    (hstop : stop ≤ Assignment.size a) :
    ∃ r, Assignment.firstSet a start stop = .ok r ∧
      IsFirst (Assignment.bit a) start stop r := by
  rw [LawfulAssignment.firstSet_eq, firstSetBitwise]
  by_cases hempty : stop ≤ start
  · rw [if_pos hempty]
    exact ⟨none, rfl, fun i hi hi' => by omega⟩
  · rw [if_neg hempty, if_pos hstop]
    obtain ⟨r, hr, hfirst⟩ := @isFirst_scanBits (Assignment.isSet a) (Assignment.bit a) start
      (stop - start) fun i hi hi' => Assignment.isSet_eq_bit a (by omega)
    rw [show start + (stop - start) = stop by omega] at hfirst
    exact ⟨r, hr, hfirst⟩

/-! ## Literals -/

namespace Literal

/-- Whether the literal is true when bit `i` has the truth value `p i`. -/
def holds (p : Nat → Bool) (l : Literal) : Bool := p l.index == l.isPositive

@[simp] theorem holds_ofIndex_true (p : Nat → Bool) {index : Nat} (h : index < indexBound) :
    (ofIndex index true h).holds p = p index := by
  rw [holds, index_ofIndex, isPositive_ofIndex, beq_true]

theorem eval_eq_holds [AnsweringAssignment α] (a : α) {l : Literal}
    (h : l.index < Assignment.size a) : l.eval a = .ok (l.holds (Assignment.bit a)) := by
  rw [eval, Assignment.isSet_eq_bit a h]
  rfl

/-- A literal is the literal of its bit with its polarity. -/
theorem ofIndex_index (l : Literal) (h : l.index < indexBound) :
    ofIndex l.index l.isPositive h = l := by
  apply ext
  have hne := l.dimacs_ne_zero
  by_cases hpos : 0 < l.dimacs
  · simp [ofIndex, index, isPositive, hpos]
    omega
  · simp [ofIndex, index, isPositive, hpos]
    omega

/-- All literals but the one with the least signed form are those of a bit. -/
theorem index_lt_of_ne {l : Literal} (h : l.dimacs ≠ -2147483648) : l.index < indexBound := by
  have hle := l.le_dimacs
  have hlt := l.dimacs_lt
  have hne := l.dimacs_ne_zero
  unfold index indexBound
  omega

/-- The opposite of a literal of a bit is that of the other polarity. -/
theorem negate_ofIndex {index : Nat} (polarity : Bool) (h : index < indexBound) :
    (ofIndex index polarity h).negate = .ok (ofIndex index (!polarity) h) := by
  have hindex : index < 2147483647 := h
  cases polarity with
  | true =>
    have hlt : -2147483648 < (ofIndex index true h).dimacs := by
      show (-2147483648 : Int) < (index : Int) + 1
      omega
    rw [negate, dif_pos hlt]
    rfl
  | false =>
    have hlt : -2147483648 < (ofIndex index false h).dimacs := by
      show (-2147483648 : Int) < -((index : Int) + 1)
      omega
    rw [negate, dif_pos hlt, Except.ok.injEq]
    exact ext (Int.neg_neg ((index : Int) + 1))

/-- Literals of the same bit are equal exactly if they have the same polarity. -/
theorem ofIndex_beq (index : Nat) (a b : Bool) (h : index < indexBound) :
    (ofIndex index a h == ofIndex index b h) = (a == b) := by
  by_cases hab : a = b
  · rw [hab, beq_self_eq_true, beq_self_eq_true]
  · have hne : ofIndex index a h ≠ ofIndex index b h := by
      intro heq
      have hpolarity := congrArg isPositive heq
      rw [isPositive_ofIndex, isPositive_ofIndex] at hpolarity
      exact hab hpolarity
    rw [beq_eq_false_iff_ne.mpr hne, beq_eq_false_iff_ne.mpr hab]

end Literal

/-! ## Constraints -/

/-- Counting true literals never faults on bits inside the width. -/
theorem trueCount_eq_countP [AnsweringAssignment α] (a : α) {ls : List Literal}
    (h : ∀ l ∈ ls, l.index < Assignment.size a) :
    trueCount a ls = .ok (ls.countP (·.holds (Assignment.bit a))) := by
  induction ls with
  | nil => rfl
  | cons l ls ih =>
    have hl := Literal.eval_eq_holds a (h l List.mem_cons_self)
    have hrest := ih fun l hl => h l (List.mem_cons_of_mem _ hl)
    rw [trueCount, hl, hrest, List.countP_cons]
    cases l.holds (Assignment.bit a) with
    | true => exact congrArg Except.ok (Nat.add_comm _ _)
    | false => exact congrArg Except.ok (Nat.zero_add _)

namespace Constraint

/-- Whether the constraint is satisfied when bit `i` has the truth value `p i`. -/
def holds (p : Nat → Bool) : Constraint → Bool
  | .disjunction ls => ls.any (·.holds p)
  | .cardinality ls relation bound => relation.holds (ls.countP (·.holds p)) bound
  | .reified l inner => l.holds p == inner.holds p

/-- A constraint over bits inside the width is decided without a fault, and by
its meaning. -/
theorem isSatisfied_eq_holds [AnsweringAssignment α] (a : α) {c : Constraint}
    (h : ∀ l ∈ c.literals, l.index < Assignment.size a) :
    c.isSatisfied a = .ok (c.holds (Assignment.bit a)) := by
  induction c with
  | disjunction ls =>
    exact anyM_eq_ok fun l hl => Literal.eval_eq_holds a (h l hl)
  | cardinality ls relation bound =>
    have hcount : trueCount a ls = .ok _ := trueCount_eq_countP a h
    rw [isSatisfied, hcount]
    rfl
  | reified l inner ih =>
    have hl := Literal.eval_eq_holds a (h l List.mem_cons_self)
    have hinner := ih fun l hl => h l (List.mem_cons_of_mem _ hl)
    rw [isSatisfied, hl, hinner]
    rfl

end Constraint

end ChoiceTree
