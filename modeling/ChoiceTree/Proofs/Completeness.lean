import Mathlib
import ChoiceTree.Proofs.ChoiceBits

/-!
# Every consistent choice has its assignment

**The encoding is complete and unambiguous**: for every choice that the tree
allows there is exactly one assignment that satisfies the model and decodes to
it, as long as nothing is constrained beyond the variables themselves.

* `Choice.assignment` — the assignment of a choice, bit by bit;
* `Run.encoded_assignment` — the choice is encoded there, since no bit belongs to
  two variables;
* `Choice.bitOf_eq_of_decoded_eq` — what is returned for a variable determines
  its bits;
* `Run.eq_of_encoded` — and no bit belongs to none, so the bits of the variables
  determine the assignment.
-/

namespace ChoiceTree

variable {V : Type} [BEq V]

/-! ## The assignment of a choice -/

namespace Choice

/-- The truth value of a bit under the choice: that of its owner's bit. -/
def bits (c : Choice) (layout : Layout) (vs : List (Variable V)) (index : Nat) : Bool :=
  vs.any fun v => (v.id?.bind layout.find?).any fun r =>
    decide (r.start ≤ index ∧ index < r.start + v.size) && c.bitOf v (index - r.start)

/-- The assignment in which every variable has the bits it has under the choice. -/
def assignment (c : Choice) (layout : Layout) (vs : List (Variable V)) : BitArray :=
  .ofFn layout.size (c.bits layout vs)

end Choice

namespace Run

variable {root : String} {t : Transcript V} {b : Builder}

/-- A bit has one owner. -/
theorem bits_add (run : Run root t b) (c : Choice) {v : Variable V} (hv : v ∈ t.created)
    {id : VarId} {r : Reservation} (hid : v.id? = some id) (hr : b.layout.find? id = some r)
    {i : Nat} (hi : i < v.size) : c.bits b.layout t.created (r.start + i) = c.bitOf v i := by
  rw [Bool.eq_iff_iff, Choice.bits, List.any_eq_true]
  constructor
  · intro h
    obtain ⟨w, hw, hbit⟩ := h
    obtain ⟨r', hr', hbit⟩ := (Option.any_eq_true _ _).mp hbit
    rw [Bool.and_eq_true, decide_eq_true_iff] at hbit
    obtain ⟨hrange, hset⟩ := hbit
    obtain ⟨id', hid', hr'⟩ := Option.bind_eq_some_iff.mp hr'
    have hlength := run.length_eq_size hv hid hr
    have hlength' := run.length_eq_size hw hid' hr'
    -- the bit lies in both ranges, so they belong to the same variable
    have hsame : id = id' := run.packed.eq_of_mem hr hr' (k := r.start + i) (by omega) (by omega)
    subst hsame
    cases hr.symm.trans hr'
    have hvw : w = v := run.eq_of_id hw hv (hid'.trans hid.symm)
    subst hvw
    rwa [Nat.add_sub_cancel_left] at hset
  · intro hset
    refine ⟨v, hv, ?_⟩
    rw [hid, Option.bind_some, hr, Option.any_some, Nat.add_sub_cancel_left, hset, Bool.and_true,
      decide_eq_true_iff]
    omega

/-- A choice is encoded in its assignment. -/
theorem encoded_assignment (run : Run root t b) (c : Choice) :
    ∀ v ∈ t.created,
      c.Encoded b.layout (Assignment.bit (c.assignment b.layout t.created)) v := by
  intro v hv id r hid hr i hi
  have hlength := run.length_eq_size hv hid hr
  have hstop := run.packed.stop_le hr
  have hlt : r.start + i < b.layout.size := by omega
  rw [BitArray.bit_eq, Choice.assignment, BitArray.bit_ofFn, decide_eq_true hlt, Bool.true_and,
    run.bits_add c hv hid hr hi]

end Run

/-! ## What is returned determines the bits -/

namespace Choice

/-- The places that a select takes can be read off what is returned for it. -/
theorem places_eq_of_decoded_eq {c c' : Choice} {s : Select V}
    (hconsistent : c.Consistent (.select s)) (hconsistent' : c'.Consistent (.select s))
    (hreflexive : s.domain.Reflexive) (h : c.decoded (.select s) = c'.decoded (.select s)) :
    c.places s.id = c'.places s.id := by
  have hpresent := isSome_decoded (v := .select s) rfl hconsistent
  have hpresent' := isSome_decoded (v := .select s) rfl hconsistent'
  rw [chosen_handle rfl] at hpresent hpresent'
  rw [h] at hpresent
  refine eq_of_isSome_eq (Bool.eq_iff_iff.mpr (hpresent.symm.trans hpresent')) ?_
  intro places places' hplaces hplaces'
  obtain ⟨hrange, hadmits⟩ := hconsistent.admitted s places rfl hplaces
  obtain ⟨hrange', hadmits'⟩ := hconsistent'.admitted s places' rfl hplaces'
  rw [decoded, decoded, hplaces, hplaces', Option.bind_some, Option.bind_some] at h
  have hselection := Option.map_injective (fun _ _ h => Decoded.select.inj h) h
  exact Select.eq_of_selection_eq hreflexive hrange hrange' hadmits hadmits' hselection

/-- What is returned for a variable determines its bits. -/
theorem bitOf_eq_of_decoded_eq {c c' : Choice} {v : Variable V} (hconsistent : c.Consistent v)
    (hconsistent' : c'.Consistent v) (hreflexive : ∀ s, v = .select s → s.domain.Reflexive)
    (h : c.decoded v = c'.decoded v) {i : Nat} (hi : i < v.size) : c.bitOf v i = c'.bitOf v i := by
  cases v with
  | root name => rfl
  | flag f =>
    have hsome := congrArg Option.isSome h
    rw [decoded, decoded, Option.isSome_map, Option.isSome_map] at hsome
    exact bitOf_congr rfl hsome (fun s hs => by cases hs) hi
  | select s =>
    have hplaces := places_eq_of_decoded_eq hconsistent hconsistent' (hreflexive s rfl) h
    refine bitOf_congr rfl (congrArg Option.isSome hplaces) ?_ hi
    rintro s ⟨⟩
    exact hplaces

end Choice

namespace Run

variable {root : String} {t : Transcript V} {b : Builder}

/-- Every bit has an owner, so assignments in which the variables have the same bits
are equal. -/
theorem eq_of_encoded (run : Run root t b) {c c' : Choice} {a a' : BitArray}
    (hsize : a.size = b.layout.size) (hsize' : a'.size = b.layout.size)
    (hencoded : ∀ v ∈ t.created, c.Encoded b.layout (Assignment.bit a) v)
    (hencoded' : ∀ v ∈ t.created, c'.Encoded b.layout (Assignment.bit a') v)
    (h : ∀ v ∈ t.created, ∀ i < v.size, c.bitOf v i = c'.bitOf v i) : a = a' := by
  apply BitArray.ext_bit (hsize.trans hsize'.symm)
  intro k hk
  rw [hsize] at hk
  -- the bit is one of its owner's bits, which both choices agree on
  obtain ⟨id, r, hr, hstart, hstop⟩ := run.packed.exists_owner hk
  obtain ⟨v, hv, hid⟩ := run.exists_variable hr
  have hlength := run.length_eq_size hv hid hr
  obtain ⟨i, rfl⟩ := Nat.exists_eq_add_of_le hstart
  have hi : i < v.size := by omega
  have hbit := hencoded v hv id r hid hr i hi
  have hbit' := hencoded' v hv id r hid hr i hi
  rw [BitArray.bit_eq] at hbit hbit'
  rw [hbit, hbit', h v hv i hi]

/-- The assignment of a consistent choice satisfies a model without added
constraints. -/
theorem isSatisfied_assignment (run : Run root t b) (plain : t.added = []) {c : Choice}
    (consistent : ∀ v ∈ t.created, c.Consistent v) :
    b.build.isSatisfied (c.assignment b.layout t.created) = .ok true := by
  have hinside : ∀ constraint ∈ t.added, ∀ l ∈ constraint.literals, l.index < b.layout.size := by
    rw [plain]
    exact fun _ h => absurd h List.not_mem_nil
  have hrepresented := run.represented_of_encoded consistent (run.encoded_assignment c)
  rw [run.isSatisfied_eq hinside _ (Nat.le_refl _), Except.ok.injEq, List.all_eq_true,
    run.holds_constraints, plain]
  exact ⟨fun _ h => absurd h List.not_mem_nil, hrepresented⟩

/-- **The encoding is complete and unambiguous.** For every consistent choice over
the variables of a run that adds no constraints, and whose values equal themselves,
there is exactly one assignment of the width of the model that satisfies it and
decodes to this choice. -/
theorem existsUnique_assignment (run : Run root t b) (plain : t.added = [])
    (reflexive : ∀ s, .select s ∈ t.created → s.domain.Reflexive) {c : Choice}
    (consistent : ∀ v ∈ t.created, c.Consistent v) :
    ∃! a : BitArray, a.size = b.build.width ∧ b.build.isSatisfied a = .ok true ∧
      ∀ v ∈ t.created, b.build.valueOf v a = .ok (c.decoded v) := by
  refine ⟨c.assignment b.layout t.created, ⟨rfl, run.isSatisfied_assignment plain consistent,
    run.valueOf_eq (Nat.le_refl _) consistent (run.encoded_assignment c)⟩, ?_⟩
  rintro a ⟨hsize, sat, hvalue⟩
  have wide : b.layout.size ≤ Assignment.size a := Nat.le_of_eq hsize.symm
  -- whatever satisfies the model encodes some consistent choice, which has to be this one
  have hrepresented := run.represented_of_isSatisfied wide sat
  have hconsistent := run.consistent_read hrepresented
  have hencoded := run.encoded_read hrepresented
  refine run.eq_of_encoded hsize rfl hencoded (run.encoded_assignment c) ?_
  intro v hv i hi
  have hread := run.valueOf_eq wide hconsistent hencoded v hv
  have hdecoded := Except.ok.inj (hread.symm.trans (hvalue v hv))
  refine Choice.bitOf_eq_of_decoded_eq (hconsistent v hv) (consistent v hv) ?_ hdecoded hi
  intro s hs
  subst hs
  exact reflexive s hv

end Run

namespace Parcel

/-- A large parcel with a gift, both extras and a wrapping for the first. -/
def order : Choice where
  places id :=
    match id.num with
    | 0 => some {1}
    | 1 => some ∅
    | 2 => some {0, 1}
    | 3 => some {0}
    | _ => none

theorem consistent_order : ∀ v ∈ transcript.created, order.Consistent v := by
  have hcreated : transcript.created =
      [.select size, .flag gift, .select extras, .select wrap] := rfl
  have hsize : order.Chosen size.handle := rfl
  have hlarge : order.Chosen gift.parent := ⟨{1}, rfl, by decide⟩
  have hgift : order.Chosen gift.handle := rfl
  have hextras : order.Chosen extras.handle := rfl
  have hfirst : order.Chosen wrap.parent := ⟨{0, 1}, rfl, by decide⟩
  rw [hcreated]
  simp only [List.forall_mem_cons, List.not_mem_nil, false_implies, implies_true, and_true]
  refine ⟨⟨?_, ?_, ?_⟩, ⟨?_, ?_, ?_⟩, ⟨?_, ?_, ?_⟩, ⟨?_, ?_, ?_⟩⟩
  · intro s places h hplaces
    cases h
    cases hplaces
    exact ⟨by decide, rfl⟩
  · intro parent h _
    cases h
    trivial
  · exact fun _ _ _ _ => hsize
  · intro s places h
    cases h
  · intro parent h _
    cases h
    exact hlarge
  · exact fun _ _ _ _ => hgift
  · intro s places h hplaces
    cases h
    cases hplaces
    exact ⟨by decide, Finset.insert_nonempty _ _⟩
  · intro parent h _
    cases h
    exact hgift
  · exact fun _ _ _ _ => hextras
  · intro s places h hplaces
    cases h
    cases hplaces
    exact ⟨by decide, rfl⟩
  · intro parent h _
    cases h
    exact hfirst
  · exact fun _ _ h _ => absurd h (by decide)

/-- There is one way to order a full parcel. -/
theorem existsUnique_order :
    transcript.added = [] ∧ (∀ s, .select s ∈ transcript.created → s.domain.Reflexive) ∧
    (∀ v ∈ transcript.created, order.Consistent v) ∧
    ∃! a : BitArray, a.size = session.build.width ∧ session.build.isSatisfied a = .ok true ∧
      ∀ v ∈ transcript.created, session.build.valueOf v a = .ok (order.decoded v) :=
  ⟨rfl, fun s _ => s.domain.reflexive, consistent_order,
    run.existsUnique_assignment rfl (fun s _ => s.domain.reflexive) consistent_order⟩

end Parcel

end ChoiceTree
