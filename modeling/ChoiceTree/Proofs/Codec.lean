import Mathlib
import ChoiceTree.Proofs.Run

/-!
# The coding of literals

A literal is coded in a signed number of 32 bits, and its bit and its polarity are read back
from the number. The two ends of the range differ: the greatest number codes a bit, the
least one codes none that a literal can be made of. In between nothing is lost in either
direction. Constraints ask for the bit of a literal and compare polarities, decoding asks
for the literal of a bit and compares literals: the answers are the same.

* `Literal.signedForm`, `Literal.Exact` — the number, computed in 32 bits;
* `Literal.new_eq_error`, `Literal.ofDimacs_signedForm` — which literals can be made;
* `Literal.Opposites` — a literal and the one with the other polarity;
* `Literal.Tested` — the two ways of testing an assignment for a literal;
* `Literal.coded_without_loss` — all of this.
-/

namespace ChoiceTree

namespace Literal

/-! ## Signed forms in 32 bits -/

/-- The signed form of a literal, computed in 32 bits: wrapped around if it does not fit. -/
def signedForm (index : Nat) (polarity : Bool) : Int32 :=
  if polarity then Int32.ofNat index + 1 else -(Int32.ofNat index + 1)

/-- No step of the computation wraps around. -/
structure Exact (index : Nat) : Prop where
  index_eq : (Int32.ofNat index).toInt = index
  succ_eq : (Int32.ofNat index + 1).toInt = index + 1
  neg_eq : (-(Int32.ofNat index + 1)).toInt = -(index + 1 : Int)

/-- A number that has an opposite in 32 bits is not wrapped around by taking it. -/
theorem toInt_neg_of_ne {n : Int32} (h : n ≠ Int32.minValue) : (-n).toInt = -n.toInt := by
  have hle : -2147483648 ≤ n.toInt := n.le_toInt
  have hlt : n.toInt < 2147483648 := n.toInt_lt
  have hne : n.toInt ≠ -2147483648 := fun heq => h (Int32.toInt_inj.mp heq)
  rw [Int32.toInt_neg]
  exact Int.bmod_eq_of_le (by omega) (by omega)

/-- The bits that have literals are few enough. -/
theorem exact_of_lt {index : Nat} (h : index < indexBound) : Exact index := by
  have hlt : index < 2147483647 := h
  have hindex : (Int32.ofNat index).toInt = index := Int32.toInt_ofNat_of_lt (by omega)
  have hsucc : (Int32.ofNat index + 1).toInt = index + 1 := by
    rw [Int32.toInt_add, hindex, Int32.toInt_one]
    exact Int.bmod_eq_of_le (by omega) (by omega)
  have hne : Int32.ofNat index + 1 ≠ Int32.minValue := by
    intro heq
    rw [heq, Int32.toInt_minValue] at hsucc
    omega
  exact ⟨hindex, hsucc, by rw [toInt_neg_of_ne hne, hsucc]⟩

/-! ## Making literals -/

/-- Only the bits that are too far out have no literals. -/
theorem new_eq_error (index : Nat) (polarity : Bool) :
    new index polarity = .error (.literalRange index) ↔ indexBound ≤ index := by
  rw [new]
  split
  · next h => simp [h]
  · next h => simp [Nat.not_lt.mp h]

/-- A number is the signed form of one literal, unless it is zero. -/
theorem exists_ofDimacs {n : Int32} (h : n ≠ 0) :
    ∃ l, ofDimacs n = .ok l ∧ l.dimacs = n.toInt := by
  have hne : n.toInt ≠ 0 := fun heq => h (Int32.toInt_inj.mp heq)
  rw [ofDimacs, dif_pos hne]
  exact ⟨_, rfl, rfl⟩

/-- The literal of a bit is that of the signed form that is computed for it. -/
theorem ofDimacs_signedForm {index : Nat} {polarity : Bool} (h : index < indexBound) :
    ofDimacs (signedForm index polarity) = .ok (ofIndex index polarity h) := by
  have hexact := exact_of_lt h
  have hform : (signedForm index polarity).toInt = (ofIndex index polarity h).dimacs := by
    cases polarity with
    | true => exact hexact.succ_eq
    | false => exact hexact.neg_eq
  have hne : signedForm index polarity ≠ 0 := by
    intro hzero
    rw [hzero, Int32.toInt_zero] at hform
    exact (ofIndex index polarity h).dimacs_ne_zero hform.symm
  obtain ⟨l, hl, hdimacs⟩ := exists_ofDimacs hne
  rw [hl, ext (hdimacs.trans hform)]

/-! ## Opposites -/

/-- The literals are coded by `n` and by its opposite, and each is the other's. -/
structure Opposites (n : Int32) (l m : Literal) : Prop where
  ofDimacs_eq : ofDimacs n = .ok l
  /-- The literal is that of its own bit with its own polarity. -/
  new_eq : new l.index l.isPositive = .ok l
  /-- Nothing below zero is computed for the bit. -/
  succ_index_eq : l.index + 1 = n.toInt.natAbs
  negate_eq : l.negate = .ok m
  negate_negate_eq : m.negate = .ok l
  index_eq : m.index = l.index
  isPositive_eq : m.isPositive = !l.isPositive
  /-- In 32 bits the opposite number is not wrapped around. -/
  neg_eq : (-n).toInt = -n.toInt
  ofDimacs_neg_eq : ofDimacs (-n) = .ok m

/-- Every number but zero and the least one codes a literal that has an opposite. -/
theorem exists_opposites {n : Int32} (hzero : n ≠ 0) (hleast : n ≠ Int32.minValue) :
    ∃ l m, Opposites n l m := by
  obtain ⟨l, hl, hdimacs⟩ := exists_ofDimacs hzero
  have hneg := toInt_neg_of_ne hleast
  have hlt : l.index < indexBound := by
    refine index_lt_of_ne fun heq => hleast (Int32.toInt_inj.mp ?_)
    rw [← hdimacs, heq, Int32.toInt_minValue]
    rfl
  -- so the literal is that of its bit, and its opposite has the other polarity
  have hself := l.ofIndex_index hlt
  let m : Literal := ofIndex l.index (!l.isPositive) hlt
  have hm : l.negate = .ok m := by
    have hopposite := negate_ofIndex l.isPositive hlt
    rwa [hself] at hopposite
  have hback : m.negate = .ok l := by
    have hopposite := negate_ofIndex (!l.isPositive) hlt
    rwa [Bool.not_not, hself] at hopposite
  have hdimacs' : m.dimacs = (-n).toInt := by
    rw [hneg, ← hdimacs]
    rw [negate] at hm
    split at hm
    · exact (congrArg dimacs (Except.ok.inj hm)).symm
    · cases hm
  have hm' : ofDimacs (-n) = .ok m := by
    have hne : -n ≠ 0 := by
      intro heq
      rw [heq, Int32.toInt_zero] at hdimacs'
      exact m.dimacs_ne_zero hdimacs'
    obtain ⟨m', hread, hread'⟩ := exists_ofDimacs hne
    rw [hread, ext (hread'.trans hdimacs'.symm)]
  refine ⟨l, m, hl, ?_, ?_, hm, hback, index_ofIndex _ _ _, isPositive_ofIndex _ _ _, hneg, hm'⟩
  · rw [new_eq_ok hlt, hself]
  · have hne := l.dimacs_ne_zero
    rw [← hdimacs, index]
    omega

/-! ## Testing assignments -/

/-- Evaluating the literal `l` comes to whether the assignment's own literal of the bit is
`l`, which is what decoding tests for; evaluating its opposite `m` comes to the contrary. -/
def Tested {α : Type} [Assignment α] (a : α) (l m : Literal) : Prop :=
  ∃ verdict seen, l.eval a = .ok verdict ∧ Assignment.literal a l.index = .ok seen ∧
    (verdict = true ↔ seen = l) ∧ agrees a (some l) = .ok verdict ∧ m.eval a = .ok (!verdict)

theorem Opposites.tested {n : Int32} {l m : Literal} (h : Opposites n l m) {α : Type}
    [Assignment α] [AnsweringAssignment α] (a : α) (hsize : l.index < Assignment.size a) :
    Tested a l m := by
  have hlt : l.index < indexBound := by
    by_contra hfar
    have hfault := (new_eq_error l.index l.isPositive).mpr (Nat.not_lt.mp hfar)
    rw [h.new_eq] at hfault
    cases hfault
  have hguard : ∀ l' ∈ some l, l'.index < Assignment.size a ∧ l'.index < indexBound := by
    rintro l' ⟨⟩
    exact ⟨hsize, hlt⟩
  have hagrees : agrees a (some l) = .ok (l.holds (Assignment.bit a)) := agrees_eq_holds a hguard
  refine ⟨_, _, eval_eq_holds a hsize, Assignment.literal_eq_ok a hsize hlt, ?_, hagrees, ?_⟩
  · have hsame := ofIndex_beq l.index (Assignment.bit a l.index) l.isPositive hlt
    rw [l.ofIndex_index hlt] at hsame
    rw [holds, ← hsame, beq_iff_eq]
  · have hsize' : m.index < Assignment.size a := h.index_eq ▸ hsize
    rw [eval_eq_holds a hsize', holds, holds, h.index_eq, h.isPositive_eq]
    cases Assignment.bit a l.index <;> cases l.isPositive <;> rfl

/-- **Literals are coded without loss.** A literal is made of every bit below `2 ^ 31 - 1`
and of no other; nothing wraps around in 32 bits, and its bit and its polarity are read
back. Every number but zero and the least one codes a literal that is made of its own bit
and polarity and has an opposite, which has the other polarity. Where an assignment has the
bit, evaluating the literal and looking for it among the assignment's own agree, and its
opposite evaluates to the contrary. -/
theorem coded_without_loss :
    (∀ index polarity,
      (new index polarity = .error (.literalRange index) ↔ 2 ^ 31 - 1 ≤ index) ∧
      (index < 2 ^ 31 - 1 → Exact index ∧ ∃ l, new index polarity = .ok l ∧
        ofDimacs (signedForm index polarity) = .ok l ∧ l.index = index ∧
        l.isPositive = polarity)) ∧
    ∀ n : Int32, n ≠ 0 → n ≠ Int32.minValue → ∃ l m, Opposites n l m ∧
      ∀ {α : Type} [Assignment α] [AnsweringAssignment α] (a : α),
        l.index < Assignment.size a → Tested a l m := by
  constructor
  · intro index polarity
    refine ⟨new_eq_error index polarity, fun hlt => ⟨exact_of_lt hlt, ?_⟩⟩
    exact ⟨ofIndex index polarity hlt, new_eq_ok hlt, ofDimacs_signedForm hlt,
      index_ofIndex _ _ _, isPositive_ofIndex _ _ _⟩
  · intro n hzero hleast
    obtain ⟨l, m, hopposites⟩ := exists_opposites hzero hleast
    exact ⟨l, m, hopposites, fun a hsize => hopposites.tested a hsize⟩

end Literal

namespace Parcel

/-- The codes of the last bit that has literals, of the least number that has an opposite,
and of the gift being missing, which the full parcel is tested for. -/
theorem noGift_coded :
    2147483646 < 2 ^ 31 - 1 ∧
    (Literal.Exact 2147483646 ∧ ∃ l, Literal.new 2147483646 false = .ok l ∧
      Literal.ofDimacs (Literal.signedForm 2147483646 false) = .ok l ∧
      l.index = 2147483646 ∧ l.isPositive = false) ∧
    (-2147483647 : Int32) ≠ 0 ∧ (-2147483647 : Int32) ≠ Int32.minValue ∧
    (∃ l m, Literal.Opposites (-2147483647) l m) ∧
    (-3 : Int32) ≠ 0 ∧ (-3 : Int32) ≠ Int32.minValue ∧
    ∃ l m, Literal.Opposites (-3) l m ∧ 2 < Assignment.size full ∧ Literal.Tested full l m := by
  have hlast : 2147483646 < 2 ^ 31 - 1 := by decide
  have hzero : (-2147483647 : Int32) ≠ 0 := by decide
  have hleast : (-2147483647 : Int32) ≠ Int32.minValue := by decide
  have hzero' : (-3 : Int32) ≠ 0 := by decide
  have hleast' : (-3 : Int32) ≠ Int32.minValue := by decide
  have hmade := (Literal.coded_without_loss.1 2147483646 false).2 hlast
  obtain ⟨l, m, hopposites, _⟩ := Literal.coded_without_loss.2 (-2147483647) hzero hleast
  obtain ⟨l', m', hopposites', htested⟩ := Literal.coded_without_loss.2 (-3) hzero' hleast'
  have hindex : l'.index < Assignment.size full := by
    have hmagnitude : l'.index + 1 = 3 := hopposites'.succ_index_eq
    show l'.index < 7
    omega
  exact ⟨hlast, hmade, hzero, hleast, ⟨l, m, hopposites⟩, hzero', hleast',
    l', m', hopposites', by decide, htested full hindex⟩

end Parcel

end ChoiceTree
