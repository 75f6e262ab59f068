import Mathlib
import ChoiceTree.Proofs.Choice
import ChoiceTree.Proofs.Meaning

/-!
# Choices in bits

How a choice is written in the bits of a layout, and how it is read off them
again:

* `Choice.bitOf`, `Choice.Encoded` — the bits that a variable has under a choice;
* `Choice.Encoded.represented`, `Variable.Represented.encoded` — for one variable, between
  the bits of a choice and the meaning of its constraints;
* `Run.chosen_iff_active` — where a consistent choice is encoded, what is chosen
  is what is anchored at a set bit, at any depth;
* `Run.represented_of_encoded` — there, every variable is represented;
* `Run.valueOf_eq` — and decodes to what the choice says;
* `Variable.read`, `Choice.read`, `Run.encoded_read`, `Run.consistent_read` — whenever
  every variable is represented, a consistent choice is encoded.
-/

namespace ChoiceTree

variable {α V : Type} [BEq V]

namespace Choice

/-- The truth value that a bit of the variable has under the choice, counted from
the first one: the activation bit says whether the variable is present, an option
bit whether the option is taken. -/
def bitOf (c : Choice) (v : Variable V) (position : Nat) : Bool :=
  v.id?.any fun id =>
    if v.optional = true ∧ position = 0 then (c.places id).isSome
    else (c.places id).any fun places => decide (position - v.optional.toNat ∈ places)

/-- Bit `i` has the truth value `p i`, and the variable's bits are those it has
under the choice. -/
def Encoded (c : Choice) (layout : Layout) (p : Nat → Bool) (v : Variable V) : Prop :=
  ∀ id r, v.id? = some id → layout.find? id = some r →
    ∀ i < v.size, p (r.start + i) = c.bitOf v i

/-- The activation bit says whether the variable is present. -/
theorem bitOf_zero {c : Choice} {v : Variable V} {id : VarId} (hid : v.id? = some id)
    (hoptional : v.optional = true) : c.bitOf v 0 = (c.places id).isSome := by
  rw [bitOf, hid, Option.any_some, if_pos ⟨hoptional, rfl⟩]

/-- An option bit says whether the option is taken. -/
theorem bitOf_option {c : Choice} (s : Select V) (i : Nat) :
    c.bitOf (.select s) (s.firstOption + i) = true ↔
      ∃ places, c.places s.id = some places ∧ i ∈ places := by
  have hposition : ¬((Variable.select s).optional = true ∧ s.firstOption + i = 0) := by
    intro h
    obtain ⟨hoptional, hzero⟩ := h
    have hs : s.optional = true := hoptional
    rw [Select.firstOption, hs, Bool.toNat_true] at hzero
    omega
  have hplace : s.firstOption + i - (Variable.select s).optional.toNat = i :=
    Nat.add_sub_cancel_left _ _
  rw [bitOf, show (Variable.select s).id? = some s.id from rfl, Option.any_some,
    if_neg hposition, hplace, Option.any_eq_true]
  simp only [decide_eq_true_eq]

/-- The bits of a flag say whether it is present, those of a select what it takes. -/
theorem bitOf_congr {c c' : Choice} {v : Variable V} {id : VarId} (hid : v.id? = some id)
    (hpresent : (c.places id).isSome = (c'.places id).isSome)
    (hplaces : ∀ s, v = .select s → c.places s.id = c'.places s.id) {i : Nat} (hi : i < v.size) :
    c.bitOf v i = c'.bitOf v i := by
  cases v with
  | root name => cases hid
  | flag f =>
    obtain rfl : i = 0 := Nat.lt_one_iff.mp hi
    rw [bitOf_zero hid rfl, bitOf_zero hid rfl, hpresent]
  | select s =>
    have hid : (Variable.select s).id? = some s.id := rfl
    rw [bitOf, bitOf, hid, Option.any_some, Option.any_some, hplaces s rfl]

variable {c : Choice} {layout : Layout} {p : Nat → Bool}

theorem Encoded.activation {v : Variable V} (h : c.Encoded layout p v) {id : VarId}
    {r : Reservation} (hid : v.id? = some id) (hr : layout.find? id = some r)
    (hoptional : v.optional = true) : p r.start = (c.places id).isSome := by
  rw [← bitOf_zero hid hoptional]
  exact h id r hid hr 0 (Variable.size_pos_of_optional hoptional)

/-- The set option bits are those of the options that are taken. -/
theorem Encoded.mem_placesOn {s : Select V} (h : c.Encoded layout p (.select s))
    {r : Reservation} (hr : layout.find? s.id = some r) {i : Nat} :
    i ∈ s.placesOn p r.start ↔
      i < s.domain.size ∧ ∃ places, c.places s.id = some places ∧ i ∈ places := by
  rw [Select.mem_placesOn]
  refine and_congr_right fun hi => ?_
  have hsize : s.firstOption + i < s.size := by
    rw [Select.size]
    omega
  rw [Nat.add_assoc, h s.id r rfl hr (s.firstOption + i) hsize, bitOf_option]

/-- The set option bits of a select that is present are those of its places. -/
theorem Encoded.placesOn_eq {s : Select V} (h : c.Encoded layout p (.select s))
    {r : Reservation} (hr : layout.find? s.id = some r) {places : Finset Nat}
    (hplaces : c.places s.id = some places) (hrange : places ⊆ Finset.range s.domain.size) :
    s.placesOn p r.start = places := by
  ext i
  rw [h.mem_placesOn hr, hplaces]
  constructor
  · intro h
    obtain ⟨_, places', hsome, hi⟩ := h
    cases hsome
    exact hi
  · intro hi
    exact ⟨Finset.mem_range.mp (hrange hi), places, rfl, hi⟩

/-- A select that is absent has no option bit set. -/
theorem Encoded.placesOn_eq_empty {s : Select V} (h : c.Encoded layout p (.select s))
    {r : Reservation} (hr : layout.find? s.id = some r) (hplaces : c.places s.id = none) :
    s.placesOn p r.start = ∅ := by
  rw [Finset.eq_empty_iff_forall_notMem]
  intro i hi
  obtain ⟨_, places, hsome, _⟩ := (h.mem_placesOn hr).mp hi
  rw [hplaces] at hsome
  cases hsome

/-- An option is chosen exactly if its bit is set. -/
theorem Encoded.chosen_option_iff {s : Select V} (h : c.Encoded layout p (.select s))
    {r : Reservation} (hr : layout.find? s.id = some r) {o : SelectOption V}
    (ho : o ∈ s.options) : c.Chosen o.handle ↔ o.handle.anchor.active layout p = true := by
  obtain ⟨_, hlt, _⟩ := Select.mem_options ho
  have hsize : s.firstOption + o.ref.index < s.size := by
    rw [Select.size]
    omega
  rw [chosen_option ho, Select.anchor_option ho, Anchor.active_bit hr,
    h s.id r rfl hr _ hsize, bitOf_option]

/-- A variable is represented by the bits of a choice in which it takes what it may, and is
present if what it anchors at is active, but only while its parent is. -/
theorem Encoded.represented {v : Variable V} (h : c.Encoded layout p v) {id : VarId}
    {parent : Handle} (hid : v.id? = some id) (hparent : v.parent = .ok parent)
    (hadmitted : ∀ s places, v = .select s → c.places s.id = some places →
      places ⊆ Finset.range s.domain.size ∧ s.Admits places)
    (hactive : (c.places id).isSome = v.handle.anchor.active layout p)
    (hnested : (c.places id).isSome = true → parent.anchor.active layout p = true) :
    v.Represented layout p := by
  refine ⟨?_, ?_, ?_⟩
  · intro s r hs hr hgovernor
    subst hs
    cases hid
    rw [s.anchor_governor] at hgovernor
    obtain ⟨places, hplaces⟩ := Option.isSome_iff_exists.mp (hactive.trans hgovernor)
    obtain ⟨hrange, hadmits⟩ := hadmitted s places rfl hplaces
    rw [h.placesOn_eq hr hplaces hrange]
    exact hadmits
  · intro s r hs hr hgovernor
    subst hs
    cases hid
    rw [s.anchor_governor] at hgovernor
    have hnone := Option.isSome_eq_false_iff.mp (hactive.trans hgovernor)
    exact h.placesOn_eq_empty hr (Option.isNone_iff_eq_none.mp hnone)
  · intro id' r parent' hid' hr hparent' hoptional hset
    cases hid.symm.trans hid'
    cases hparent.symm.trans hparent'
    rw [h.activation hid hr hoptional] at hset
    exact hnested hset

end Choice

/-- A registered variable is decoded from the bits reserved for it, with the guard of
its parent. -/
theorem Model.valueOf_eq_decode [Assignment α] {m : Model} {v : Variable V} {id : VarId}
    {r : Reservation} {parent : Handle} {guard : Option Literal} (hid : v.id? = some id)
    (hr : m.layout.find? id = some r) (hparent : v.parent = .ok parent)
    (hguard : parent.guard m.layout = .ok guard) {a : α} (wide : m.width ≤ Assignment.size a) :
    m.valueOf v a = v.decode a r.start guard := by
  have hwide : ¬Assignment.size a < m.width := Nat.not_lt.mpr wide
  have hstart : m.layout.offsetOf id = .ok r.start := Layout.offsetOf_eq_ok.mpr ⟨r, hr, rfl⟩
  have hparentLiteral : v.parentLiteral m.layout = .ok guard :=
    (Variable.parentLiteral_eq_guard hparent m.layout).trans hguard
  simp only [valueOf, if_neg hwide, hid]
  show (do
    let offset ← m.layout.offsetOf id
    let above ← v.parentLiteral m.layout
    v.decode a offset above) = v.decode a r.start guard
  rw [hstart, ok_bind, hparentLiteral, ok_bind]

/-- The root is there in any assignment that is wide enough. -/
theorem Model.valueOf_root [Assignment α] {m : Model} {name : String} {a : α}
    (wide : m.width ≤ Assignment.size a) :
    m.valueOf (.root name : Variable V) a = .ok (some .root) := by
  unfold valueOf
  rw [if_neg (Nat.not_lt.mpr wide)]
  rfl

namespace Run

variable {root : String} {t : Transcript V} {b : Builder} {c : Choice} {p : Nat → Bool}

/-- A variable of the run has bits of its own, and its parent has a guard. -/
theorem exists_placement (run : Run root t b) {v : Variable V} (hv : v ∈ t.created) :
    ∃ id r parent guard, v.id? = some id ∧ b.layout.find? id = some r ∧ r.length = v.size ∧
      v.parent = .ok parent ∧ Known t.created parent ∧ parent.guard b.layout = .ok guard := by
  obtain ⟨id, r, hid, hr, hlength⟩ := run.exists_reservation hv
  obtain ⟨parent, hparent, hknown⟩ := run.parent_known hv
  obtain ⟨cs, hcs⟩ := run.emitted hv
  obtain ⟨guard, hguard⟩ := Variable.exists_guard_parent hparent hcs
  exact ⟨id, r, parent, guard, hid, hr, hlength, hparent, hknown, hguard⟩

/-- **What is chosen is what is anchored at a set bit.** -/
theorem chosen_iff_active (run : Run root t b) (hconsistent : ∀ v ∈ t.created, c.Consistent v)
    (hencoded : ∀ v ∈ t.created, c.Encoded b.layout p v) {h : Handle}
    (hknown : Known t.created h) : c.Chosen h ↔ h.anchor.active b.layout p = true := by
  refine run.handle_induction (P := fun h => c.Chosen h ↔ h.anchor.active b.layout p = true)
    ?_ ?_ ?_ hknown
  · exact iff_of_true trivial rfl
  · intro v hv parent hparent _ hiff
    obtain ⟨id, r, hid, hr, _⟩ := run.exists_reservation hv
    cases hoptional : v.optional with
    | true =>
      rw [Choice.chosen_handle hid, Variable.anchor_handle_of_optional hid hoptional,
        Anchor.active_bit hr, Nat.add_zero, (hencoded v hv).activation hid hr hoptional]
    | false =>
      -- a mandatory variable shares the anchor of its parent, and is chosen with it
      rw [Variable.anchor_handle_of_mandatory hparent hoptional, ← hiff]
      exact ⟨(hconsistent v hv).nested parent hparent,
        (hconsistent v hv).forced parent hparent hoptional⟩
  · intro s hs o ho _
    obtain ⟨id, r, hid, hr, _⟩ := run.exists_reservation hs
    cases hid
    exact (hencoded _ hs).chosen_option_iff hr ho

/-- Where a consistent choice is encoded, every variable is represented. -/
theorem represented_of_encoded (run : Run root t b)
    (hconsistent : ∀ v ∈ t.created, c.Consistent v)
    (hencoded : ∀ v ∈ t.created, c.Encoded b.layout p v) :
    ∀ v ∈ t.created, v.Represented b.layout p := by
  intro v hv
  obtain ⟨id, _, hid, _, _⟩ := run.exists_reservation hv
  obtain ⟨parent, hparent, hknown⟩ := run.parent_known hv
  refine (hencoded v hv).represented hid hparent (hconsistent v hv).admitted ?_ ?_
  · rw [Bool.eq_iff_iff, ← Choice.chosen_handle hid]
    exact run.chosen_iff_active hconsistent hencoded (.handle hv)
  · intro hpresent
    have hchosen := (hconsistent v hv).nested parent hparent
      ((Choice.chosen_handle hid).mpr hpresent)
    exact (run.chosen_iff_active hconsistent hencoded hknown).mp hchosen

/-- Where a consistent choice is encoded, a variable that is asked whether its parent
and its own activation bit are set is present. -/
theorem active_eq_present (run : Run root t b) (hconsistent : ∀ v ∈ t.created, c.Consistent v)
    (hencoded : ∀ v ∈ t.created, c.Encoded b.layout p v) {v : Variable V} (hv : v ∈ t.created)
    {id : VarId} {r : Reservation} (hid : v.id? = some id) (hr : b.layout.find? id = some r)
    {parent : Handle} (hparent : v.parent = .ok parent) :
    (parent.anchor.active b.layout p && (!v.optional || p r.start)) = (c.places id).isSome := by
  have hiff := run.chosen_iff_active hconsistent hencoded (run.known_of_parent hv hparent)
  have hpresent := Choice.chosen_handle (c := c) hid
  rw [Bool.eq_iff_iff, Bool.and_eq_true, ← hiff, ← hpresent]
  cases hoptional : v.optional with
  | true =>
    rw [Bool.not_true, Bool.false_or, (hencoded v hv).activation hid hr hoptional, ← hpresent]
    exact ⟨And.right, fun h => ⟨(hconsistent v hv).nested parent hparent h, h⟩⟩
  | false =>
    rw [Bool.not_false, Bool.true_or]
    exact ⟨fun h => (hconsistent v hv).forced parent hparent hoptional h.1,
      fun h => ⟨(hconsistent v hv).nested parent hparent h, rfl⟩⟩

/-- **Where a consistent choice is encoded, it is what the variables decode to.** -/
theorem valueOf_eq [Assignment α] [LawfulAssignment α] (run : Run root t b) {a : α}
    (wide : b.layout.size ≤ Assignment.size a) (hconsistent : ∀ v ∈ t.created, c.Consistent v)
    (hencoded : ∀ v ∈ t.created, c.Encoded b.layout (Assignment.bit a) v) :
    ∀ v ∈ t.created, b.build.valueOf v a = .ok (c.decoded v) := by
  intro v hv
  obtain ⟨id, r, hid, hr, hlength⟩ := run.exists_reservation hv
  obtain ⟨parent, hparent, hknown⟩ := run.parent_known hv
  obtain ⟨cs, hcs⟩ := run.emitted hv
  obtain ⟨guard, hguard⟩ := Variable.exists_guard_parent hparent hcs
  have hstop := run.packed.stop_le hr
  have hbound := run.packed.size_lt
  have hinside := Handle.inside_of_guard run.packed (run.registered hknown) hguard wide
  have hpresent := run.active_eq_present hconsistent hencoded hv hid hr hparent
  rw [← Handle.all_holds_of_guard hguard] at hpresent
  have hdecode : b.build.valueOf v a = v.decode a r.start guard :=
    Model.valueOf_eq_decode (m := b.build) hid hr hparent hguard wide
  rw [hdecode]
  cases v with
  | root name => cases hid
  | flag f =>
    cases hid
    have hone : r.length = 1 := hlength
    have hactive : (guard.all (·.holds (Assignment.bit a)) && Assignment.bit a r.start) =
        (c.places f.id).isSome := hpresent
    rw [Variable.decode, Flag.decode_eq f a hinside (by omega), hactive, Choice.decoded]
    cases c.places f.id with
    | none => rfl
    | some places => rfl
  | select s =>
    cases hid
    have hsize : r.length = s.size := hlength
    have hactive : (guard.all (·.holds (Assignment.bit a)) &&
        (!s.optional || Assignment.bit a r.start)) = (c.places s.id).isSome := hpresent
    rw [Variable.decode, Select.decode_eq s a hinside (by omega) (by omega), hactive,
      Choice.decoded]
    cases hplaces : c.places s.id with
    | none => rfl
    | some places =>
      -- an active select has an option set, so the scan does not come back empty
      obtain ⟨hrange, hadmits⟩ := (hconsistent _ hv).admitted s places rfl hplaces
      obtain ⟨selection, hselection, _⟩ := Select.exists_selection hrange hadmits
      rw [(hencoded _ hv).placesOn_eq hr hplaces hrange, hselection, Option.bind_some, hselection]
      rfl

end Run

/-! ## Reading a choice off -/

/-- The places of the options whose bits are set, none for anything but a select. -/
def Variable.placesOn (layout : Layout) (p : Nat → Bool) : Variable V → Finset Nat
  | .select s => ((layout.find? s.id).map fun r => s.placesOn p r.start).getD ∅
  | _ => ∅

/-- What the bits say of a variable: nothing if what it anchors at is not active, otherwise
the places of the options whose bits are set. -/
def Variable.read (layout : Layout) (p : Nat → Bool) (v : Variable V) : Option (Finset Nat) :=
  if v.handle.anchor.active layout p then some (v.placesOn layout p) else none

/-- The choice in which the variables anchored at a set bit are present, with the
options whose bits are set. -/
def Choice.read (layout : Layout) (p : Nat → Bool) (vs : List (Variable V)) : Choice where
  places id := (vs.find? (·.id? == some id)).bind fun v =>
    if v.handle.anchor.active layout p then some (v.placesOn layout p) else none

section

variable {layout : Layout} {p : Nat → Bool} {v : Variable V}

theorem Variable.isSome_read : (v.read layout p).isSome = v.handle.anchor.active layout p := by
  rw [Variable.read]
  split
  · next h => exact h.symm
  · next h => exact (Bool.eq_false_iff.mpr h).symm

/-- The places of a select that is present are those of the options whose bits are set. -/
theorem Variable.mem_read {s : Select V} {r : Reservation} (hr : layout.find? s.id = some r)
    {places : Finset Nat} : (Variable.select s).read layout p = some places ↔
      s.handle.anchor.active layout p = true ∧ s.placesOn p r.start = places := by
  have hplaces : (Variable.select s).placesOn layout p = s.placesOn p r.start := by
    simp [Variable.placesOn, hr]
  rw [Variable.read, hplaces]
  show (if s.handle.anchor.active layout p = true then _ else _) = _ ↔ _
  simp

/-- A select that is represented takes what it may. -/
theorem Variable.Represented.admits_read {s : Select V}
    (h : (Variable.select s).Represented layout p) {r : Reservation}
    (hr : layout.find? s.id = some r) {places : Finset Nat}
    (hread : (Variable.select s).read layout p = some places) :
    places ⊆ Finset.range s.domain.size ∧ s.Admits places := by
  rw [Variable.mem_read hr, ← s.anchor_governor] at hread
  obtain ⟨hgovernor, rfl⟩ := hread
  exact ⟨Finset.filter_subset _ _, h.admits s r rfl hr hgovernor⟩

/-- A variable that is represented is only active while its parent is. -/
theorem Variable.Represented.active_parent (h : v.Represented layout p) {id : VarId}
    {r : Reservation} {parent : Handle} (hid : v.id? = some id) (hr : layout.find? id = some r)
    (hparent : v.parent = .ok parent) (hactive : v.handle.anchor.active layout p = true) :
    parent.anchor.active layout p = true := by
  -- the scope constraint of an optional variable, the shared anchor of any other
  cases hoptional : v.optional with
  | true =>
    rw [Variable.anchor_handle_of_optional hid hoptional, Anchor.active_bit hr,
      Nat.add_zero] at hactive
    exact h.tied id r parent hid hr hparent hoptional hactive
  | false => rwa [Variable.anchor_handle_of_mandatory hparent hoptional] at hactive

/-- The bits of a variable that is represented are those of any choice that says of it what
they do. -/
theorem Variable.Represented.encoded (h : v.Represented layout p) {c : Choice} {id : VarId}
    (hid : v.id? = some id) (hread : c.places id = v.read layout p) : c.Encoded layout p v := by
  intro id' r hid' hr i hi
  cases hid.symm.trans hid'
  by_cases hfirst : v.optional = true ∧ i = 0
  · -- an optional variable anchors at its activation bit
    obtain ⟨hoptional, rfl⟩ := hfirst
    rw [Choice.bitOf_zero hid hoptional, hread, Variable.isSome_read,
      Variable.anchor_handle_of_optional hid hoptional, Anchor.active_bit hr]
  · cases v with
    | root name => cases hid
    | flag f => exact absurd ⟨rfl, Nat.lt_one_iff.mp hi⟩ hfirst
    | select s =>
      cases hid
      -- any other bit is the bit of an option
      obtain ⟨j, rfl⟩ : ∃ j, i = s.firstOption + j := by
        refine ⟨i - s.firstOption, (Nat.add_sub_cancel' ?_).symm⟩
        cases hs : s.optional with
        | false => rw [Select.firstOption, hs]; exact Nat.zero_le i
        | true =>
          rw [Select.firstOption, hs]
          exact Nat.one_le_iff_ne_zero.mpr fun hzero => hfirst ⟨hs, hzero⟩
      have hj : j < s.domain.size := by
        have hsize : s.firstOption + j < s.domain.size + s.firstOption := hi
        omega
      have hset : p (r.start + (s.firstOption + j)) = true ↔ j ∈ s.placesOn p r.start := by
        rw [Select.mem_placesOn, Nat.add_assoc, and_iff_right hj]
      rw [Bool.eq_iff_iff, Choice.bitOf_option, hset, hread]
      simp only [Variable.mem_read hr]
      constructor
      · intro hmem
        refine ⟨_, ⟨?_, rfl⟩, hmem⟩
        -- nothing is set while the governor is not active
        by_contra hidle
        have hgovernor : s.governor.anchor.active layout p = false := by
          rw [s.anchor_governor]
          exact Bool.eq_false_iff.mpr hidle
        rw [h.idle s r rfl hr hgovernor] at hmem
        cases hmem
      · rintro ⟨places, ⟨_, rfl⟩, hmem⟩
        exact hmem

end

namespace Run

variable {root : String} {t : Transcript V} {b : Builder} {p : Nat → Bool}

theorem places_read (run : Run root t b) {v : Variable V} (hv : v ∈ t.created) {id : VarId}
    (hid : v.id? = some id) :
    (Choice.read b.layout p t.created).places id = v.read b.layout p := by
  have hfind : t.created.find? (·.id? == some id) = some v := by
    cases hfound : t.created.find? (·.id? == some id) with
    | none =>
      have hnone := List.find?_eq_none.mp hfound v hv
      rw [hid] at hnone
      exact absurd (beq_self_eq_true _) hnone
    | some w =>
      have hw := List.find?_some hfound
      rw [beq_iff_eq, ← hid] at hw
      rw [run.eq_of_id (List.mem_of_find?_eq_some hfound) hv hw]
  show (t.created.find? (·.id? == some id)).bind _ = _
  rw [hfind, Option.bind_some, Variable.read]

theorem chosen_read (run : Run root t b) {v : Variable V} (hv : v ∈ t.created) :
    (Choice.read b.layout p t.created).Chosen v.handle ↔
      v.handle.anchor.active b.layout p = true := by
  obtain ⟨id, _, hid, _, _⟩ := run.exists_reservation hv
  rw [Choice.chosen_handle hid, run.places_read hv hid, Variable.isSome_read]

/-- Where every variable is represented, the choice that is read off is encoded. -/
theorem encoded_read (run : Run root t b) (h : ∀ v ∈ t.created, v.Represented b.layout p) :
    ∀ v ∈ t.created, (Choice.read b.layout p t.created).Encoded b.layout p v := by
  intro v hv
  obtain ⟨id, _, hid, _, _⟩ := run.exists_reservation hv
  exact (h v hv).encoded hid (run.places_read hv hid)

/-- In the choice that is read off, what is chosen is what is anchored at a set bit. -/
theorem chosen_read_iff (run : Run root t b) (h : ∀ v ∈ t.created, v.Represented b.layout p)
    {handle : Handle} (hknown : Known t.created handle) :
    (Choice.read b.layout p t.created).Chosen handle ↔
      handle.anchor.active b.layout p = true := by
  cases hknown with
  | root => exact iff_of_true trivial rfl
  | handle hv => exact run.chosen_read hv
  | option hs ho =>
    obtain ⟨id, r, hid, hr, _⟩ := run.exists_reservation hs
    cases hid
    exact (run.encoded_read h _ hs).chosen_option_iff hr ho

/-- Where every variable is represented, the choice that is read off is consistent. -/
theorem consistent_read (run : Run root t b) (h : ∀ v ∈ t.created, v.Represented b.layout p) :
    ∀ v ∈ t.created, (Choice.read b.layout p t.created).Consistent v := by
  intro v hv
  obtain ⟨id, r, hid, hr, _⟩ := run.exists_reservation hv
  obtain ⟨parent, hparent, hknown⟩ := run.parent_known hv
  refine ⟨?_, ?_, ?_⟩
  · intro s places hs hplaces
    subst hs
    cases hid
    exact (h _ hv).admits_read hr ((run.places_read hv rfl).symm.trans hplaces)
  · intro parent' hparent' hv'
    cases hparent.symm.trans hparent'
    exact (run.chosen_read_iff h hknown).mpr
      ((h v hv).active_parent hid hr hparent ((run.chosen_read hv).mp hv'))
  · intro parent' hparent' hmandatory hparentChosen
    cases hparent.symm.trans hparent'
    refine (run.chosen_read hv).mpr ?_
    rw [Variable.anchor_handle_of_mandatory hparent hmandatory]
    exact (run.chosen_read_iff h hknown).mp hparentChosen

end Run

end ChoiceTree
