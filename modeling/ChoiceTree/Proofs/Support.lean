import Mathlib
import ChoiceTree.Proofs.Locality

/-!
# The support of a constraint

A constraint lists the literals it mentions, and these are its support: the verdict on an
assignment depends on no other bit. Literals may repeat and contradict each other, the
evaluation stops at the first true literal of a disjunction and at nothing else, and
equivalences nest to any depth. None of this matters as long as the bits of the listed
literals are there.

* `Constraint.TrueUnder` — what a constraint says of truth values, as a proposition;
* `Constraint.holds_iff_trueUnder` — the evaluator decides it;
* `Constraint.exists_nested`, `Constraint.literals_nested` — a constraint is a disjunction
  or a bound inside of equivalences, and lists the literals of these first;
* `Constraint.decided_by_literals` — the support.
-/

namespace ChoiceTree

namespace Constraint

/-- What the constraint says of the truth values `p`: some literal is true; the number of
true ones, each counted as often as it is listed, keeps to the bound; or the literal is
true exactly if the inner constraint is. -/
def TrueUnder (p : Nat → Bool) : Constraint → Prop
  | .disjunction ls => ∃ l ∈ ls, l.holds p = true
  | .cardinality ls .le bound => (ls.filter (·.holds p)).length ≤ bound
  | .reified l inner => l.holds p = true ↔ inner.TrueUnder p

/-- The evaluator decides what the constraint says. -/
theorem holds_iff_trueUnder {p : Nat → Bool} {k : Constraint} :
    k.holds p = true ↔ k.TrueUnder p := by
  induction k with
  | disjunction ls => exact List.any_eq_true
  | cardinality ls relation bound =>
    cases relation
    simp [holds, TrueUnder, Relation.holds, List.countP_eq_length_filter]
  | reified l inner ih =>
    simp only [holds, TrueUnder, beq_iff_eq]
    rw [Bool.eq_iff_iff, ih]

/-! ## Nested equivalences -/

/-- The constraint inside of equivalences with these literals, the first outermost. -/
def nested (governors : List Literal) (core : Constraint) : Constraint :=
  governors.foldr .reified core

/-- The literals of the equivalences come first, from the outside in. -/
theorem literals_nested (governors : List Literal) (core : Constraint) :
    (nested governors core).literals = governors ++ core.literals := by
  induction governors with
  | nil => rfl
  | cons l governors ih => exact congrArg (l :: ·) ih

/-- Every constraint is a disjunction or a bound inside of equivalences. -/
theorem exists_nested (k : Constraint) :
    ∃ governors ls, k = nested governors (.disjunction ls) ∨
      ∃ relation bound, k = nested governors (.cardinality ls relation bound) := by
  induction k with
  | disjunction ls => exact ⟨[], ls, .inl rfl⟩
  | cardinality ls relation bound => exact ⟨[], ls, .inr ⟨relation, bound, rfl⟩⟩
  | reified l inner ih =>
    obtain ⟨governors, ls, hinner⟩ := ih
    refine ⟨l :: governors, ls, ?_⟩
    rcases hinner with rfl | ⟨relation, bound, rfl⟩
    · exact .inl rfl
    · exact .inr ⟨relation, bound, rfl⟩

/-! ## The support -/

/-- **A constraint is decided by the bits of its literals.** Let two assignments, of any
two kinds that answer for their bits, have these bits and agree on them. Then the
constraint is decided under both, without a fault and alike, and the verdict is what the
constraint says. The listed literals are those of the equivalences, from the outside in,
followed by those of the disjunction or bound inside. -/
theorem decided_by_literals (k : Constraint) :
    (∀ {α β : Type} [Assignment α] [Assignment β] [AnsweringAssignment α]
      [AnsweringAssignment β] (a : α) (c : β),
      (∀ l ∈ k.literals, l.index < Assignment.size a ∧ l.index < Assignment.size c) →
      (∀ l ∈ k.literals, Assignment.isSet a l.index = Assignment.isSet c l.index) →
      ∃ verdict, k.isSatisfied a = .ok verdict ∧ k.isSatisfied c = .ok verdict ∧
        (verdict = true ↔ k.TrueUnder (Assignment.bit a))) ∧
    ∃ governors ls,
      (k = nested governors (.disjunction ls) ∨
        ∃ relation bound, k = nested governors (.cardinality ls relation bound)) ∧
      k.literals = governors ++ ls := by
  constructor
  · intro α β _ _ _ _ a c inside agree
    have ha := isSatisfied_eq_holds a fun l hl => (inside l hl).1
    have hc := isSatisfied_eq_holds c fun l hl => (inside l hl).2
    have hsame : k.holds (Assignment.bit a) = k.holds (Assignment.bit c) :=
      holds_congr fun l hl => Assignment.bit_congr (agree l hl)
    rw [← hsame] at hc
    exact ⟨_, ha, hc, holds_iff_trueUnder⟩
  · obtain ⟨governors, ls, hk⟩ := k.exists_nested
    refine ⟨governors, ls, hk, ?_⟩
    rcases hk with rfl | ⟨relation, bound, rfl⟩
    · exact literals_nested governors _
    · exact literals_nested governors _

end Constraint

namespace Parcel

/-- The bits of the full parcel but for the last, and with the first one set. -/
def cut : Bools := ⟨[true, false, true, true, true, true]⟩

/-- The clash is decided alike for the padded parcel, which has more bits and another first
one. -/
theorem clash_decided :
    (∀ l ∈ clash.literals, l.index < Assignment.size cut ∧ l.index < Assignment.size padded) ∧
    (∀ l ∈ clash.literals, Assignment.isSet cut l.index = Assignment.isSet padded l.index) ∧
    ∃ verdict, clash.isSatisfied cut = .ok verdict ∧ clash.isSatisfied padded = .ok verdict ∧
      (verdict = true ↔ clash.TrueUnder (Assignment.bit cut)) := by
  have hinside : ∀ l ∈ clash.literals,
      l.index < Assignment.size cut ∧ l.index < Assignment.size padded := by decide
  have hcut : ∀ l ∈ clash.literals, Assignment.isSet cut l.index =
      .ok (Nat.testBit 0x2F000000000000007E l.index) := by
    intro l hl
    fin_cases hl <;> rfl
  have hagree : ∀ l ∈ clash.literals,
      Assignment.isSet cut l.index = Assignment.isSet padded l.index := by
    intro l hl
    have hlt : l.index < 70 := (hinside l hl).2
    rw [padded, isSet_ofMask hlt]
    exact hcut l hl
  exact ⟨hinside, hagree, clash.decided_by_literals.1 cut padded hinside hagree⟩

end Parcel

end ChoiceTree
