import Mathlib
import ChoiceTree.Proofs.ChoiceBits

/-!
# What is written into option bits is read from them

The decoder jumps from one set bit of a window to the next, at positions that are counted from
the place of the last one. What it comes to is said here without any jump: the options are
looked at one by one, and each is taken if its bit is set.

* `Select.setPlaces`, `Select.Answers` — the places of the set options, and what is to be
  answered for them;
* `Select.Idle`, `Select.idle_iff` — when there is nothing to answer;
* `Select.decode_answers` — the decoder against this reference, in any window;
* `Select.Written`, `Run.reads_written` — in a model, the literals of the options are those of
  the bits that the decoder looks at, so what is written by literals is decoded.
-/

namespace ChoiceTree

variable {α V : Type}

/-- The values at the wanted places, place by place. -/
theorem forall₂_valuesWhere {wanted : Nat → Bool} {all : List V} {first : Nat} {values : List V}
    (h : all.drop first = values) :
    List.Forall₂ (fun i v => all[i]? = some v)
      ((List.range' first values.length).filter wanted) (valuesWhere wanted first values) := by
  induction values generalizing first with
  | nil => exact .nil
  | cons v vs ih =>
    have hv : all[first]? = some v := by rw [← List.head?_drop, h, List.head?_cons]
    have hrest : all.drop (first + 1) = vs := by rw [← List.tail_drop, h, List.tail_cons]
    rw [List.length_cons, List.range'_succ, List.filter_cons, valuesWhere_cons]
    split
    · exact .cons hv (ih hrest)
    · exact ih hrest

namespace Select

variable [BEq V]

/-! ## The reference -/

/-- What is to be answered for a select that is active and whose options at the listed places
are set: the value at the first place if it is nominal, the values at all of them if it is
multiple. Without a place there is no answer, and the select is named in the complaint. -/
def Answers (s : Select V) (places : List Nat)
    (result : Except Fault (Option (Selection V))) : Prop :=
  match places with
  | [] => ∃ fault, result = .error fault ∧ fault.message =
      "Inconsistent instance, should have something set for " ++ s.label ++ "."
  | first :: _ =>
    match s.kind with
    | .nominal => ∃ v, s.domain.values[first]? = some v ∧ result = .ok (some (.one v))
    | .multiple => ∃ values, List.Forall₂ (fun i v => s.domain.values[i]? = some v) places values ∧
        result = .ok (some (.many values))

variable [Assignment α]

/-- The places of the options whose bits are set, ascending. The bits of the select start at
`offset`. -/
def setPlaces (s : Select V) (a : α) (offset : Nat) : List Nat :=
  (List.range s.domain.size).filter fun i => Assignment.bit a (offset + s.optional.toNat + i)

/-- The literal of the parent is false, or the activation bit is not set. -/
def Idle (s : Select V) (a : α) (offset : Nat) (above : Option Literal) : Prop :=
  (∃ l, above = some l ∧ l.eval a = .ok false) ∨
    s.optional = true ∧ Assignment.isSet a offset = .ok false

/-! ## The decoder -/

/-- The set options, place by place. -/
theorem forall₂_setPlaces (s : Select V) (a : α) (offset : Nat) :
    List.Forall₂ (fun i v => s.domain.values[i]? = some v) (s.setPlaces a offset)
      (s.valuesAt (s.placesOn (Assignment.bit a) offset)) := by
  rw [valuesAt_placesOn, setPlaces, List.range_eq_range']
  exact forall₂_valuesWhere List.drop_zero

/-- The selection of the set options is what is to be answered for them. -/
theorem answers_selection {s : Select V} {places : List Nat} {chosen : Finset Nat}
    (h : List.Forall₂ (fun i v => s.domain.values[i]? = some v) places (s.valuesAt chosen)) :
    s.Answers places (match s.selection chosen with
      | some selection => .ok (some selection)
      | none => .error (.noOptionSet s.label)) := by
  unfold Answers selection
  generalize s.valuesAt chosen = values at h
  cases h with
  | nil =>
    have hmessage : (Fault.noOptionSet s.label).message =
        "Inconsistent instance, should have something set for " ++ s.label ++ "." := rfl
    cases s.kind with
    | nominal => exact ⟨_, rfl, hmessage⟩
    | multiple => exact ⟨_, rfl, hmessage⟩
  | cons hv hrest =>
    cases s.kind with
    | nominal => exact ⟨_, hv, rfl⟩
    | multiple => exact ⟨_, .cons hv hrest, rfl⟩

variable [LawfulAssignment α]

/-- The select is idle exactly if it is not active. -/
theorem idle_iff (s : Select V) (a : α) {offset : Nat} {above : Option Literal}
    (hguard : ∀ l ∈ above, l.index < Assignment.size a)
    (hoffset : s.optional = true → offset < Assignment.size a) :
    s.Idle a offset above ↔
      (above.all (·.holds (Assignment.bit a)) && (!s.optional || Assignment.bit a offset)) =
        false := by
  have habove : (∃ l, above = some l ∧ l.eval a = .ok false) ↔
      above.all (·.holds (Assignment.bit a)) = false := by
    cases above with
    | none => simp
    | some l => simp [Literal.eval_eq_holds a (hguard l rfl)]
  have hown : (s.optional = true ∧ Assignment.isSet a offset = .ok false) ↔
      (!s.optional || Assignment.bit a offset) = false := by
    cases hoptional : s.optional with
    | false => simp
    | true => simp [Assignment.isSet_eq_bit a (hoffset hoptional)]
  rw [Idle, habove, hown, Bool.and_eq_false_iff]

/-- A window that ends outside the assignment cannot be searched. -/
theorem firstSet_eq_error (a : α) {start stop : Nat} (hstart : start < stop)
    (hstop : Assignment.size a < stop) :
    Assignment.firstSet a start stop = .error (.windowRange stop (Assignment.size a)) := by
  rw [LawfulAssignment.firstSet_eq, firstSetBitwise, if_neg (Nat.not_le.mpr hstart),
    if_neg (Nat.not_le.mpr hstop)]

/-- An active select faults if its bits end outside the assignment. -/
theorem decode_eq_error (s : Select V) (a : α) {offset : Nat} {above : Option Literal}
    (room : offset + s.size < Address.bound) (houtside : Assignment.size a < offset + s.size)
    (hactive : isActive a offset above s.optional = .ok true) :
    s.decode a offset above = .error (.windowRange (offset + s.size) (Assignment.size a)) := by
  have hsize : offset + s.size = offset + s.firstOption + s.domain.size := by
    rw [size, Nat.add_assoc, Nat.add_comm s.firstOption]
  have hpos : 0 < s.domain.size := List.length_pos_iff.mpr s.domain.nonempty
  have hstart : Address.add offset s.firstOption = .ok (offset + s.firstOption) :=
    Address.add_eq_ok (by omega)
  have hstop : Address.add (offset + s.firstOption) s.domain.size =
      .ok (offset + s.firstOption + s.domain.size) := Address.add_eq_ok (by omega)
  have hfault : Assignment.firstSet a (offset + s.firstOption)
      (offset + s.firstOption + s.domain.size) =
      .error (.windowRange (offset + s.firstOption + s.domain.size) (Assignment.size a)) :=
    firstSet_eq_error a (by omega) (by omega)
  rw [decode, hactive, ok_bind, if_pos rfl, hstart, ok_bind, hstop, ok_bind, hsize]
  cases s.kind with
  | nominal =>
    simp only [hfault]
    rfl
  | multiple =>
    -- the first search for an option already reaches the end of the window
    obtain ⟨v, vs, hvalues⟩ := List.exists_cons_of_ne_nil s.domain.nonempty
    have hscan : decodeFrom a (offset + s.firstOption) (offset + s.firstOption + s.domain.size) 0
        s.domain.values = .error (.windowRange (offset + s.firstOption + s.domain.size)
          (Assignment.size a)) := by
      rw [hvalues, decodeFrom, Nat.add_zero, hfault]
    simp only [hscan]
    rfl

/-- **Decoding is what it is said to be.** Where the bits of a select lie inside the assignment,
there is nothing to decode exactly if the literal of the parent is false or the activation bit
is not set. Otherwise the answer is that for the options whose bits are set: the value of the
first, or the values of all in order, or the complaint that there is none. A select that is
active and whose bits end outside the assignment is not decoded at all. -/
theorem decode_answers (s : Select V) (a : α) {offset : Nat} {above : Option Literal}
    (room : offset + s.size < Address.bound)
    (inside : ∀ l ∈ above, l.index < Assignment.size a ∧ l.dimacs ≠ -2147483648) :
    (offset + s.size ≤ Assignment.size a →
      (s.decode a offset above = .ok none ↔ s.Idle a offset above) ∧
      (¬s.Idle a offset above → s.Answers (s.setPlaces a offset) (s.decode a offset above))) ∧
    (Assignment.size a < offset + s.size → isActive a offset above s.optional = .ok true →
      s.decode a offset above = .error (.windowRange (offset + s.size) (Assignment.size a))) := by
  refine ⟨fun hsize => ?_, s.decode_eq_error a room⟩
  have hoffset : s.optional = true → offset < Assignment.size a := by
    intro hoptional
    have hpos := Variable.size_pos_of_optional (v := .select s) hoptional
    have hsame : (Variable.select s).size = s.size := rfl
    omega
  have hidle := s.idle_iff a (fun l hl => (inside l hl).1) hoffset
  have hguard : ∀ l ∈ above, l.index < Assignment.size a ∧ l.index < Literal.indexBound :=
    fun l hl => ⟨(inside l hl).1, Literal.index_lt_of_ne (inside l hl).2⟩
  have hdecode := s.decode_eq a hguard hsize room
  rw [hidle, hdecode]
  cases above.all (·.holds (Assignment.bit a)) && (!s.optional || Assignment.bit a offset) with
  | false => exact ⟨iff_of_true rfl rfl, fun h => absurd rfl h⟩
  | true =>
    have hanswers := answers_selection (s.forall₂_setPlaces a offset)
    rw [if_pos rfl]
    refine ⟨iff_of_false ?_ Bool.noConfusion, fun _ => hanswers⟩
    cases s.selection (s.placesOn (Assignment.bit a) offset) with
    | none => simp
    | some selection => simp

end Select

/-- The extras of the full parcel are answered for; from the last bit on they are not. -/
theorem Parcel.extras_answers :
    3 + extras.size < Address.bound ∧
    (∀ l ∈ some (literal 2 true), l.index < Assignment.size full ∧ l.dimacs ≠ -2147483648) ∧
    3 + extras.size ≤ Assignment.size full ∧
    ¬extras.Idle full 3 (some (literal 2 true)) ∧ extras.setPlaces full 3 = [0, 1] ∧
    extras.Answers (extras.setPlaces full 3) (extras.decode full 3 (some (literal 2 true))) ∧
    6 + extras.size < Address.bound ∧ Assignment.size full < 6 + extras.size ∧
    isActive full 6 none extras.optional = .ok true ∧
    extras.decode full 6 none = .error (.windowRange 8 7) := by
  have hinside : ∀ l ∈ some (literal 2 true),
      l.index < Assignment.size full ∧ l.dimacs ≠ -2147483648 := by decide
  have hidle : ¬extras.Idle full 3 (some (literal 2 true)) := by
    rintro (⟨l, ⟨⟩, hfalse⟩ | ⟨hoptional, _⟩)
    · cases hfalse
    · cases hoptional
  have hroom : 3 + extras.size < Address.bound := by decide
  have hroom' : 6 + extras.size < Address.bound := by decide
  have hinside' : ∀ l ∈ (none : Option Literal),
      l.index < Assignment.size full ∧ l.dimacs ≠ -2147483648 := by simp
  have hinner := extras.decode_answers full hroom hinside
  have houter := extras.decode_answers full hroom' hinside'
  exact ⟨hroom, hinside, by decide, hidle, rfl, (hinner.1 (by decide)).2 hidle, hroom', by decide,
    rfl, houter.2 (by decide) rfl⟩

/-! ## Writing by literals -/

namespace Select

variable [BEq V] [Assignment α]

/-- What is written for a select through the literals it comes with: the literal of its parent
is true, its activation bit is set if it has one, and the literals of its options say which of
them are among the listed places. Nothing is said about any other bit. -/
structure Written (s : Select V) (layout : Layout) (a : α) (places : Finset Nat) : Prop where
  above : ∀ l, (Variable.select s).parentLiteral layout = .ok (some l) → l.eval a = .ok true
  own : s.optional = true → ∀ start, layout.offsetOf s.id = .ok start →
    Assignment.isSet a start = .ok true
  options : ∀ o ∈ s.options, ∀ l, o.toLiteral layout = .ok l →
    Assignment.isSet a l.index = .ok (decide (o.index ∈ places))

variable {s : Select V} {layout : Layout} {a : α} {places : Finset Nat} {r : Reservation}

/-- The decoder finds the options that were written. -/
theorem Written.placesOn_eq (h : s.Written layout a places) (hr : layout.find? s.id = some r)
    (hliterals : ∀ o ∈ s.options, ∃ l, o.toLiteral layout = .ok l)
    (hrange : places ⊆ Finset.range s.domain.size) :
    s.placesOn (Assignment.bit a) r.start = places := by
  have hbit : ∀ i < s.domain.size,
      Assignment.bit a (r.start + s.firstOption + i) = decide (i ∈ places) := by
    intro i hi
    have hlt : i < s.options.length := by rwa [length_options]
    have ho : s.options[i] ∈ s.options := List.getElem_mem hlt
    have hindex : s.options[i].ref.index = i := by rw [getElem_options]
    -- the bit is the one that the literal of the option is about
    obtain ⟨l, hl⟩ := hliterals _ ho
    have hbit : l.index = r.start + (s.firstOption + s.options[i].ref.index) :=
      Variable.index_of_toLiteral (anchor_option ho) hr hl
    have hset := h.options _ ho l hl
    rw [SelectOption.index, hbit, hindex] at hset
    rw [Nat.add_assoc, Assignment.bit, hset]
  ext i
  rw [mem_placesOn]
  constructor
  · rintro ⟨hi, hset⟩
    rwa [hbit i hi, decide_eq_true_iff] at hset
  · intro hi
    have hlt := Finset.mem_range.mp (hrange hi)
    exact ⟨hlt, by rw [hbit i hlt, decide_eq_true hi]⟩

/-- A select for which something was written is active. -/
theorem Written.active [LawfulAssignment α] (h : s.Written layout a places)
    (hr : layout.find? s.id = some r) {guard : Option Literal}
    (hguard : s.parent.guard layout = .ok guard)
    (hinside : ∀ l ∈ guard, l.index < Assignment.size a) :
    (guard.all (·.holds (Assignment.bit a)) && (!s.optional || Assignment.bit a r.start)) =
      true := by
  have habove : guard.all (·.holds (Assignment.bit a)) = true := by
    cases guard with
    | none => rfl
    | some l =>
      have htrue := h.above l hguard
      rw [Literal.eval_eq_holds a (hinside l rfl), Except.ok.injEq] at htrue
      exact htrue
  rw [habove, Bool.true_and]
  cases hoptional : s.optional with
  | false => rfl
  | true =>
    have hset := h.own hoptional r.start (Layout.offsetOf_eq_ok.mpr ⟨r, hr, rfl⟩)
    rw [Assignment.bit, hset]
    rfl

end Select

namespace Run

variable [BEq V] {root : String} {t : Transcript V} {b : Builder}

/-- The options of a select of the run have literals. -/
theorem exists_option_literal (run : Run root t b) {s : Select V} (hs : .select s ∈ t.created) :
    ∀ o ∈ s.options, ∃ l, o.toLiteral b.layout = .ok l := by
  obtain ⟨cs, hcs⟩ := run.emitted hs
  obtain ⟨implicit, _, himplicit, _, _⟩ := Variable.emitted_eq_ok.mp hcs
  obtain ⟨literals, _, hliterals, _, _⟩ := Select.implicitConstraints_eq_ok.mp himplicit
  exact exists_ok_of_mapM hliterals

/-- **What is written by literals is decoded.** Of a select of a run that may take the listed
places, the bits are known and all options have literals. Whatever is written for the places
through these literals, into an assignment that need not satisfy the model, decodes to the
values at the places: the only one if the select is nominal, all of them in their order if it
is multiple. -/
theorem reads_written [Assignment α] [LawfulAssignment α] (run : Run root t b) {s : Select V}
    (hs : .select s ∈ t.created) {places : Finset Nat}
    (hrange : places ⊆ Finset.range s.domain.size) (hadmits : s.Admits places) (a : α)
    (wide : b.build.width ≤ Assignment.size a) (written : s.Written b.layout a places) :
    (∃ start above, b.layout.offsetOf s.id = .ok start ∧
      (Variable.select s).parentLiteral b.layout = .ok above) ∧
    (∀ o ∈ s.options, ∃ l, o.toLiteral b.layout = .ok l) ∧
    ∃ selection, b.build.valueOf (.select s) a = .ok (some (.select selection)) ∧
      s.Returns places selection := by
  obtain ⟨id, r, parent, guard, hid, hr, hlength, hparent, hknown, hguard⟩ :=
    run.exists_placement hs
  cases hid
  cases hparent
  have hliterals := run.exists_option_literal hs
  have hinside := Handle.inside_of_guard run.packed (run.registered hknown) hguard wide
  have hsize : r.length = s.size := hlength
  have hstop := run.packed.stop_le hr
  have hbound := run.packed.size_lt
  have hwide : b.layout.size ≤ Assignment.size a := wide
  obtain ⟨selection, hselection, hreturns⟩ := Select.exists_selection hrange hadmits
  have hactive := written.active hr hguard fun l hl => (hinside l hl).1
  have hplaces := written.placesOn_eq hr hliterals hrange
  have hdecode : b.build.valueOf (.select s) a = (Variable.select s).decode a r.start guard :=
    Model.valueOf_eq_decode rfl hr rfl hguard wide
  refine ⟨⟨r.start, guard, Layout.offsetOf_eq_ok.mpr ⟨r, hr, rfl⟩, hguard⟩, hliterals,
    selection, ?_, hreturns⟩
  rw [hdecode, Variable.decode, Select.decode_eq s a hinside (by omega) (by omega), hactive,
    hplaces, hselection]
  rfl

end Run

namespace Parcel

/-- A parcel of both sizes, with a gift, the second of the extras and half a wrapping. -/
def muddle : Bools := ⟨[true, true, true, false, true, true, false]⟩

theorem muddle_written : extras.Written session.layout muddle {1} := by
  refine ⟨?_, ?_, ?_⟩
  · rintro l ⟨⟩
    rfl
  · intro hoptional
    cases hoptional
  · have hoptions : extras.options = [⟨⟨extras.ref, 0⟩, 3⟩, ⟨⟨extras.ref, 1⟩, 4⟩] := rfl
    rw [hoptions]
    simp only [List.forall_mem_cons, List.not_mem_nil, false_implies, implies_true, and_true]
    refine ⟨?_, ?_⟩
    · rintro l ⟨⟩
      rfl
    · rintro l ⟨⟩
      rfl

/-- The second of the extras is read from it, although there is no such parcel. -/
theorem muddle_reads :
    ({1} : Finset Nat) ⊆ Finset.range extras.domain.size ∧ extras.Admits {1} ∧
    session.build.width ≤ Assignment.size muddle ∧ extras.Written session.layout muddle {1} ∧
    session.build.isSatisfied muddle = .ok false ∧
    ∃ selection, session.build.valueOf (.select extras) muddle = .ok (some (.select selection)) ∧
      extras.Returns {1} selection := by
  have hselect : .select extras ∈ transcript.created := .tail _ (.tail _ (.head _))
  have hrange : ({1} : Finset Nat) ⊆ Finset.range extras.domain.size := by decide
  have hadmits : extras.Admits {1} := Finset.singleton_nonempty 1
  have hreads := run.reads_written hselect hrange hadmits muddle (by decide) muddle_written
  exact ⟨hrange, hadmits, by decide, muddle_written, rfl, hreads.2.2⟩

end Parcel

end ChoiceTree
