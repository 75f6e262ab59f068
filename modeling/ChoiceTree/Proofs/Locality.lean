import Mathlib
import ChoiceTree.Proofs.ChoiceBits

/-!
# Decoding and satisfaction are local

The decoder asks an assignment for the bits of the variable and for the bit of its parent's
literal, and for no other. What it makes of the answers does not depend on how the
assignment stores its bits: words and masks are behind `LawfulAssignment`, and beyond it
decoding is a function of truth values (`Flag.decode_eq`, `Select.decode_eq`).

* `Agree` — two assignments, perhaps of different kinds, answer alike in a window;
* `Variable.decode_congr` — decoding, from the bits it asks for;
* `Constraint.holds_congr` — the meaning of a constraint, from the bits it mentions;
* `Run.exists_verdict`, `Run.valueOf_congr`, `Run.decodes_locally` — the two for the model of a
  run.
-/

namespace ChoiceTree

variable {α β V : Type} [Assignment α] [Assignment β]

/-- The assignments answer alike for the bits from `start` up to, but without, `stop`. -/
def Agree (a : α) (c : β) (start stop : Nat) : Prop :=
  ∀ i, start ≤ i → i < stop → Assignment.isSet a i = Assignment.isSet c i

theorem Assignment.bit_congr {a : α} {c : β} {i : Nat}
    (h : Assignment.isSet a i = Assignment.isSet c i) :
    Assignment.bit a i = Assignment.bit c i := by
  unfold bit
  rw [h]

theorem Agree.bit_eq {a : α} {c : β} {start stop i : Nat} (h : Agree a c start stop)
    (hstart : start ≤ i) (hstop : i < stop) : Assignment.bit a i = Assignment.bit c i :=
  Assignment.bit_congr (h i hstart hstop)

/-! ## What truth values are asked for -/

theorem Literal.holds_congr {p q : Nat → Bool} {l : Literal} (h : p l.index = q l.index) :
    l.holds p = l.holds q := by
  unfold holds
  rw [h]

/-- A constraint means the same where the bits that it mentions are the same. -/
theorem Constraint.holds_congr {p q : Nat → Bool} {c : Constraint}
    (h : ∀ l ∈ c.literals, p l.index = q l.index) : c.holds p = c.holds q := by
  induction c with
  | disjunction ls =>
    show ls.any (·.holds p) = ls.any (·.holds q)
    rw [Bool.eq_iff_iff, List.any_eq_true, List.any_eq_true]
    exact exists_congr fun l => and_congr_right fun hl => by rw [Literal.holds_congr (h l hl)]
  | cardinality ls relation bound =>
    have hcount : ls.countP (·.holds p) = ls.countP (·.holds q) :=
      List.countP_congr fun l hl => by rw [Literal.holds_congr (h l hl)]
    unfold holds
    rw [hcount]
  | reified l inner ih =>
    unfold holds
    have hinner := ih fun l hl => h l (List.mem_cons_of_mem _ hl)
    rw [Literal.holds_congr (h l List.mem_cons_self), hinner]

section

variable [BEq V]

/-- The options whose bits are set are found among the bits of the select. -/
theorem Select.placesOn_congr {s : Select V} {p q : Nat → Bool} {offset : Nat}
    (h : ∀ i, offset ≤ i → i < offset + s.size → p i = q i) :
    s.placesOn p offset = s.placesOn q offset := by
  have hsize : s.size = s.domain.size + s.firstOption := rfl
  refine Finset.filter_congr fun i hi => ?_
  have hi := Finset.mem_range.mp hi
  rw [h (offset + s.firstOption + i) (by omega) (by omega)]

namespace Run

variable {root : String} {t : Transcript V} {b : Builder}
  [AnsweringAssignment α] [AnsweringAssignment β]

/-- A model is decided alike where its bits are the same. -/
theorem exists_verdict (run : Run root t b) {a : α} {c : β}
    (wide : b.build.width ≤ Assignment.size a) (wide' : b.build.width ≤ Assignment.size c)
    (inside : ∀ k ∈ t.added, ∀ l ∈ k.literals, l.index < b.build.width)
    (agree : Agree a c 0 b.build.width) :
    ∃ verdict, b.build.isSatisfied a = .ok verdict ∧ b.build.isSatisfied c = .ok verdict := by
  have hsame : ∀ k ∈ b.constraints, k.holds (Assignment.bit c) = k.holds (Assignment.bit a) :=
    fun k hk => Constraint.holds_congr fun l hl =>
      (agree.bit_eq (Nat.zero_le _) (run.index_lt inside k hk l hl)).symm
  refine ⟨_, run.isSatisfied_eq inside a wide, ?_⟩
  rw [run.isSatisfied_eq inside c wide']
  refine congrArg Except.ok ?_
  rw [Bool.eq_iff_iff, List.all_eq_true, List.all_eq_true]
  exact forall₂_congr fun k hk => by rw [hsame k hk]

end Run

variable [LawfulAssignment α] [LawfulAssignment β]

/-- **Decoding asks for the bits of the variable and for the guard.** -/
theorem Variable.decode_congr {v : Variable V} {a : α} {c : β} {offset : Nat}
    {guard : Option Literal} (hroom : offset + v.size < Address.bound)
    (hsize : offset + v.size ≤ Assignment.size a) (hsize' : offset + v.size ≤ Assignment.size c)
    (hguard : ∀ l ∈ guard, l.index < Assignment.size a ∧ l.index < Literal.indexBound)
    (hguard' : ∀ l ∈ guard, l.index < Assignment.size c ∧ l.index < Literal.indexBound)
    (hown : Agree a c offset (offset + v.size))
    (habove : ∀ l ∈ guard, Assignment.isSet a l.index = Assignment.isSet c l.index) :
    v.decode a offset guard = v.decode c offset guard := by
  have hactive : guard.all (·.holds (Assignment.bit a)) =
      guard.all (·.holds (Assignment.bit c)) := by
    cases guard with
    | none => rfl
    | some l => exact Literal.holds_congr (Assignment.bit_congr (habove l rfl))
  cases v with
  | root name => rfl
  | flag f =>
    have hone : (Variable.flag f).size = 1 := rfl
    rw [decode, decode, Flag.decode_eq f a hguard (by omega), Flag.decode_eq f c hguard' (by omega),
      hactive, hown.bit_eq (Nat.le_refl _) (by omega)]
  | select s =>
    have hplaces : s.placesOn (Assignment.bit a) offset = s.placesOn (Assignment.bit c) offset :=
      Select.placesOn_congr fun i hi hlt => hown.bit_eq hi hlt
    -- a mandatory select does not look at its first bit as an activation bit
    have hfirst : (!s.optional || Assignment.bit a offset) =
        (!s.optional || Assignment.bit c offset) := by
      cases hoptional : s.optional with
      | false => rfl
      | true =>
        have hsome : 0 < (Variable.select s).size := by
          show 0 < s.domain.size + s.optional.toNat
          rw [hoptional]
          exact Nat.succ_pos _
        rw [hown.bit_eq (Nat.le_refl _) (by omega)]
    rw [decode, decode, Select.decode_eq s a hguard hsize hroom,
      Select.decode_eq s c hguard' hsize' hroom, hactive, hfirst, hplaces]

namespace Run

variable {root : String} {t : Transcript V} {b : Builder}

/-- A variable decodes to the same where its bits and the guard of its parent are the same. -/
theorem valueOf_congr (run : Run root t b) {a : α} {c : β}
    (wide : b.build.width ≤ Assignment.size a) (wide' : b.build.width ≤ Assignment.size c)
    {v : Variable V} (hv : v ∈ t.created)
    (hown : ∀ id span, v.id? = some id → b.layout.rangeOf id = .ok span →
      Agree a c span.start span.stop)
    (habove : ∀ l, v.parentLiteral b.layout = .ok (some l) →
      Assignment.isSet a l.index = Assignment.isSet c l.index) :
    b.build.valueOf v a = b.build.valueOf v c := by
  obtain ⟨id, r, parent, guard, hid, hr, hlength, hparent, hknown, hguard⟩ :=
    run.exists_placement hv
  have hregistered := run.registered hknown
  have hrange : b.layout.rangeOf id = .ok r.span := by
    unfold Layout.rangeOf
    rw [hr]
  have hbits : Agree a c r.start (r.start + v.size) := hlength ▸ hown id r.span hid hrange
  have hinside : r.start + v.size ≤ b.build.width := hlength ▸ run.packed.stop_le hr
  have hliteral : v.parentLiteral b.layout = .ok guard :=
    (Variable.parentLiteral_eq_guard hparent b.layout).trans hguard
  rw [Model.valueOf_eq_decode (m := b.build) hid hr hparent hguard wide,
    Model.valueOf_eq_decode (m := b.build) hid hr hparent hguard wide']
  refine Variable.decode_congr (Nat.lt_of_le_of_lt hinside run.packed.size_lt)
    (Nat.le_trans hinside wide) (Nat.le_trans hinside wide')
    (Handle.inside_of_guard run.packed hregistered hguard wide)
    (Handle.inside_of_guard run.packed hregistered hguard wide') hbits ?_
  rintro l rfl
  exact habove l hliteral

/-- **Decoding and satisfaction are local**, for assignments of any two kinds that are wide
enough. A variable decodes to the same under both, or to the same fault, if they agree on
its own bits and on the bit of its parent's literal. The model is decided alike for both if
they agree on its bits and no added constraint mentions another. -/
theorem decodes_locally (run : Run root t b) (a : α) (c : β)
    (wide : b.build.width ≤ Assignment.size a) (wide' : b.build.width ≤ Assignment.size c) :
    (∀ v ∈ Variable.root root :: t.created,
      (∀ id span, v.id? = some id → b.layout.rangeOf id = .ok span →
        Agree a c span.start span.stop) →
      (∀ l, v.parentLiteral b.layout = .ok (some l) →
        Assignment.isSet a l.index = Assignment.isSet c l.index) →
      b.build.valueOf v a = b.build.valueOf v c) ∧
    ((∀ k ∈ t.added, ∀ l ∈ k.literals, l.index < b.build.width) →
      Agree a c 0 b.build.width →
      ∃ verdict, b.build.isSatisfied a = .ok verdict ∧ b.build.isSatisfied c = .ok verdict) := by
  refine ⟨?_, run.exists_verdict wide wide'⟩
  intro v hv hown habove
  rcases List.mem_cons.mp hv with rfl | hv
  · rw [Model.valueOf_root wide, Model.valueOf_root wide']
  · exact run.valueOf_congr wide wide' hv hown habove

end Run

end

namespace Parcel

/-- The gift with all its extras, unwrapped, in a parcel of the other size, with a set bit
behind it. -/
def stray : BitArray := .ofMask 70 0x20000000000000001D

/-- The full parcel, with set bits behind it. -/
def padded : BitArray := .ofMask 70 0x2F000000000000007E

/-- The answers of an array that is given by a number. -/
theorem isSet_ofMask {size mask i : Nat} (h : i < size) :
    Assignment.isSet (BitArray.ofMask size mask) i = .ok (mask.testBit i) :=
  BitArray.isSet_ofFn _ h

theorem agree_stray : Agree full stray 2 5 := by
  intro i _ hi
  rw [stray, isSet_ofMask (by omega)]
  interval_cases i <;> rfl

theorem agree_padded : Agree full padded 0 7 := by
  intro i _ hi
  rw [padded, isSet_ofMask (by omega)]
  interval_cases i <;> rfl

/-- The extras, from their own bits and the bit of the gift, and the verdict on the full
parcel, from the bits of the parcel. -/
theorem decodes_locally_full :
    Run "parcel" transcript session ∧ session.build.width ≤ Assignment.size full ∧
    session.build.width ≤ Assignment.size stray ∧ Agree full stray 2 5 ∧
    session.build.valueOf (.select extras) full = session.build.valueOf (.select extras) stray ∧
    session.build.width ≤ Assignment.size padded ∧ Agree full padded 0 7 ∧
    ∃ verdict, session.build.isSatisfied full = .ok verdict ∧
      session.build.isSatisfied padded = .ok verdict := by
  have hstray := run.decodes_locally full stray (by decide) (by decide)
  have hpadded := run.decodes_locally full padded (by decide) (by decide)
  have hextras : Variable.select extras ∈ Variable.root "parcel" :: transcript.created :=
    .tail _ (.tail _ (.tail _ (.head _)))
  have hgift : Variable.parentLiteral session.layout (.select extras) =
      .ok (some (literal 2 true)) := rfl
  refine ⟨run, by decide, by decide, agree_stray, hstray.1 _ hextras ?_ ?_, by decide,
    agree_padded, hpadded.2 (fun k hk => absurd hk List.not_mem_nil) agree_padded⟩
  · intro id span hid hrange
    cases hid
    cases hrange
    exact fun i hi hlt => agree_stray i (Nat.le_trans (by decide) hi) hlt
  · intro l hl
    cases hgift.symm.trans hl
    exact agree_stray 2 (by decide) (by decide)

end Parcel

end ChoiceTree
