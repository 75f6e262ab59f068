import Mathlib
import ChoiceTree.Decode
import ChoiceTree.Proofs.Valuation

/-!
# What decoding returns

The decoder scans a window for set bits; what it returns is a function of the
truth values alone:

* `Select.placesOn` — the places of the options whose bits are set;
* `Select.selection` — the selection that consists of the options at some
  places, which only exists if there is one;
* `Select.decode_eq`, `Flag.decode_eq` — decoding returns the selection of the
  set option bits, or the payload, of a variable that is active.
-/

namespace ChoiceTree

variable {α V : Type}

/-! ## Values at wanted places -/

/-- The values at the wanted places, in order, where the first value is at place
`first`. -/
def valuesWhere (wanted : Nat → Bool) (first : Nat) (values : List V) : List V :=
  ((values.zipIdx first).filter fun entry => wanted entry.2).map Prod.fst

@[simp] theorem valuesWhere_nil (wanted : Nat → Bool) (first : Nat) :
    valuesWhere wanted first ([] : List V) = [] := rfl

theorem valuesWhere_cons (wanted : Nat → Bool) (first : Nat) (v : V) (vs : List V) :
    valuesWhere wanted first (v :: vs) =
      if wanted first then v :: valuesWhere wanted (first + 1) vs
      else valuesWhere wanted (first + 1) vs := by
  rw [valuesWhere, List.zipIdx_cons, List.filter_cons]
  split <;> rfl

/-- Only the places of the values matter. -/
theorem valuesWhere_congr {wanted wanted' : Nat → Bool} {first : Nat} {values : List V}
    (h : ∀ i, first ≤ i → i < first + values.length → wanted i = wanted' i) :
    valuesWhere wanted first values = valuesWhere wanted' first values := by
  induction values generalizing first with
  | nil => rfl
  | cons v vs ih =>
    have hrest : valuesWhere wanted (first + 1) vs = valuesWhere wanted' (first + 1) vs :=
      ih fun i hi hlt => h i (by omega) (by rw [List.length_cons]; omega)
    rw [valuesWhere_cons, valuesWhere_cons, hrest,
      h first (Nat.le_refl _) (by rw [List.length_cons]; omega)]

/-- Unwanted places at the front can be passed over. -/
theorem valuesWhere_drop {wanted : Nat → Bool} {first skip : Nat} {values : List V}
    (h : ∀ i, first ≤ i → i < first + skip → wanted i = false) :
    valuesWhere wanted first values = valuesWhere wanted (first + skip) (values.drop skip) := by
  induction skip generalizing first values with
  | zero => rfl
  | succ skip ih =>
    cases values with
    | nil => rfl
    | cons v vs =>
      have hfirst : wanted first = false := h first (Nat.le_refl _) (by omega)
      rw [valuesWhere_cons, hfirst, List.drop_succ_cons,
        show first + (skip + 1) = first + 1 + skip by omega]
      exact ih fun i hi hlt => h i (by omega) (by omega)

/-- Without a wanted place there is no value. -/
theorem valuesWhere_eq_nil {wanted : Nat → Bool} {first : Nat} {values : List V}
    (h : ∀ i, first ≤ i → i < first + values.length → wanted i = false) :
    valuesWhere wanted first values = [] := by
  rw [valuesWhere_drop h, List.drop_length, valuesWhere_nil]

/-- The values at wanted places are those found there. -/
theorem mem_valuesWhere {wanted : Nat → Bool} {first : Nat} {values : List V} {v : V} :
    v ∈ valuesWhere wanted first values ↔
      ∃ i, values[i]? = some v ∧ wanted (first + i) = true := by
  rw [valuesWhere, List.mem_map]
  constructor
  · rintro ⟨⟨w, i⟩, hmem, rfl⟩
    obtain ⟨hzip, hwanted⟩ := List.mem_filter.mp hmem
    obtain ⟨hle, hget⟩ := List.mk_mem_zipIdx_iff_le_and_getElem?_sub.mp hzip
    refine ⟨i - first, hget, ?_⟩
    rw [show first + (i - first) = i by omega]
    exact hwanted
  · intro h
    obtain ⟨i, hget, hwanted⟩ := h
    refine ⟨(v, first + i), List.mem_filter.mpr ⟨?_, hwanted⟩, rfl⟩
    rw [List.mk_mem_zipIdx_iff_le_and_getElem?_sub]
    exact ⟨Nat.le_add_right _ _, by rwa [Nat.add_sub_cancel_left]⟩

/-- The first wanted value is the value at the first set bit of a window as long
as the list of values. -/
theorem head?_valuesWhere {p : Nat → Bool} {start : Nat} {values : List V} {r : Option Nat}
    (h : IsFirst p start (start + values.length) r) :
    (valuesWhere (fun i => p (start + i)) 0 values).head? = r.bind (values[·]?) := by
  cases r with
  | none =>
    rw [valuesWhere_eq_nil fun i _ hlt => h (start + i) (by omega) (by omega)]
    rfl
  | some d =>
    obtain ⟨hlt, hset, hmin⟩ := h
    have hd : d < values.length := by omega
    have hunset : ∀ i, 0 ≤ i → i < 0 + d → p (start + i) = false :=
      fun i _ hi => hmin (start + i) (by omega) (by omega)
    rw [valuesWhere_drop hunset, List.drop_eq_getElem_cons hd, valuesWhere_cons,
      Nat.zero_add, hset, if_pos rfl, List.head?_cons, Option.bind_some,
      List.getElem?_eq_getElem hd]

/-! ## Selections by places -/

namespace Select

variable [BEq V]

/-- The places of the options whose bits are set, where bit `i` has the truth
value `p i` and the select's bits start at `offset`. -/
def placesOn (s : Select V) (p : Nat → Bool) (offset : Nat) : Finset Nat :=
  (Finset.range s.domain.size).filter fun i => p (offset + s.firstOption + i) = true

/-- The values of the options at the given places, in the order of the domain. -/
def valuesAt (s : Select V) (places : Finset Nat) : List V :=
  valuesWhere (fun i => decide (i ∈ places)) 0 s.domain.values

/-- What the select decodes to when the options at the given places are chosen;
a nominal one has no room for more than the first. -/
def selection (s : Select V) (places : Finset Nat) : Option (Selection V) :=
  match s.kind with
  | .nominal => (s.valuesAt places).head?.map .one
  | .multiple =>
    match s.valuesAt places with
    | [] => none
    | values => some (.many values)

theorem mem_placesOn {s : Select V} {p : Nat → Bool} {offset i : Nat} :
    i ∈ s.placesOn p offset ↔
      i < s.domain.size ∧ p (offset + s.firstOption + i) = true := by
  rw [placesOn, Finset.mem_filter, Finset.mem_range]

/-- The values at the set option bits, by the bits. -/
theorem valuesAt_placesOn (s : Select V) (p : Nat → Bool) (offset : Nat) :
    s.valuesAt (s.placesOn p offset) =
      valuesWhere (fun i => p (offset + s.firstOption + i)) 0 s.domain.values := by
  apply valuesWhere_congr
  intro i _ hi
  rw [Nat.zero_add] at hi
  rw [Bool.eq_iff_iff, decide_eq_true_iff, mem_placesOn]
  exact and_iff_right hi

end Select

/-! ## The scan and the activation test -/

variable [Assignment α]

section

variable [AnsweringAssignment α]

/-- Inside the width, the literal of a bit has the polarity of its truth value. -/
theorem Assignment.literal_eq_ok (a : α) {index : Nat} (hsize : index < Assignment.size a)
    (hindex : index < Literal.indexBound) :
    Assignment.literal a index =
      .ok (Literal.ofIndex index (Assignment.bit a index) hindex) := by
  rw [Assignment.literal, Assignment.isSet_eq_bit a hsize]
  exact Literal.new_eq_ok hindex

/-- Testing an assignment for the literal of a parent gives the literal's truth
value, and no parent counts as true. -/
theorem agrees_eq_holds (a : α) {guard : Option Literal}
    (h : ∀ l ∈ guard, l.index < Assignment.size a ∧ l.index < Literal.indexBound) :
    agrees a guard = .ok (guard.all (·.holds (Assignment.bit a))) := by
  cases guard with
  | none => rfl
  | some l =>
    obtain ⟨hsize, hindex⟩ := h l rfl
    have hliteral := Assignment.literal_eq_ok a hsize hindex
    have hbeq := Literal.ofIndex_beq l.index (Assignment.bit a l.index) l.isPositive hindex
    rw [l.ofIndex_index hindex] at hbeq
    rw [agrees, hliteral, Option.all_some, Literal.holds, ← hbeq]
    rfl

/-- A variable is active exactly if its parent is and its activation bit, if it
has one, is set. -/
theorem isActive_eq (a : α) {offset : Nat} {guard : Option Literal} {optional : Bool}
    (hguard : ∀ l ∈ guard, l.index < Assignment.size a ∧ l.index < Literal.indexBound)
    (hoffset : optional = true → offset < Assignment.size a) :
    isActive a offset guard optional =
      .ok (guard.all (·.holds (Assignment.bit a)) &&
        (!optional || Assignment.bit a offset)) := by
  rw [isActive, agrees_eq_holds a hguard]
  cases hparent : guard.all (·.holds (Assignment.bit a)) with
  | false => rfl
  | true =>
    cases optional with
    | false => rfl
    | true => exact Assignment.isSet_eq_bit a (hoffset rfl)

end

variable [LawfulAssignment α]

/-- The scan of a window collects the values at the set bits. -/
theorem decodeFrom_eq (a : α) (start stop index : Nat) (rest : List V)
    (hstop : stop = start + index + rest.length) (hsize : stop ≤ Assignment.size a) :
    decodeFrom a start stop index rest =
      .ok (valuesWhere (fun i => Assignment.bit a (start + i)) index rest) := by
  fun_induction decodeFrom a start stop index rest with
  | case1 index => rfl
  | case2 index v vs fault herror =>
    obtain ⟨r, hr, _⟩ := Assignment.isFirst_firstSet a (start + index) stop hsize
    rw [hr] at herror
    cases herror
  | case3 index v vs hnone =>
    obtain ⟨r, hr, hfirst⟩ := Assignment.isFirst_firstSet a (start + index) stop hsize
    rw [hr] at hnone
    cases hnone
    rw [valuesWhere_eq_nil fun i hi hlt => hfirst (start + i) (by omega) (by omega)]
  | case4 index v vs skip hskip hdrop =>
    -- the window is as long as the list, so a set bit in it is the bit of a value
    obtain ⟨r, hr, hfirst⟩ := Assignment.isFirst_firstSet a (start + index) stop hsize
    rw [hr] at hskip
    cases hskip
    have hlt := hfirst.1
    have hlength := congrArg List.length hdrop
    rw [List.length_drop, List.length_nil] at hlength
    omega
  | case5 index v vs skip hskip chosen later hdrop ih =>
    obtain ⟨r, hr, hfirst⟩ := Assignment.isFirst_firstSet a (start + index) stop hsize
    rw [hr] at hskip
    cases hskip
    obtain ⟨hlt, hset, hmin⟩ := hfirst
    have hlength := congrArg List.length hdrop
    rw [List.length_drop, List.length_cons, List.length_cons] at hlength
    rw [List.length_cons] at hstop
    have hlater := ih (by omega)
    have hwanted : Assignment.bit a (start + (index + skip)) = true := by
      rw [← Nat.add_assoc]
      exact hset
    have hunset : ∀ i, index ≤ i → i < index + skip → Assignment.bit a (start + i) = false :=
      fun i hi hlt => hmin (start + i) (by omega) (by omega)
    rw [valuesWhere_drop hunset, hdrop, valuesWhere_cons, if_pos hwanted, hlater]
    rfl

/-! ## Decoding -/

theorem Flag.decode_eq (f : Flag V) (a : α) {offset : Nat} {guard : Option Literal}
    (hguard : ∀ l ∈ guard, l.index < Assignment.size a ∧ l.index < Literal.indexBound)
    (hoffset : offset < Assignment.size a) :
    f.decode a offset guard =
      .ok (if guard.all (·.holds (Assignment.bit a)) && Assignment.bit a offset
        then some f.payload else none) := by
  rw [decode, isActive_eq a hguard fun _ => hoffset]
  rfl

namespace Select

variable [BEq V]

/-- Decoding returns the selection of the set option bits if the select is
active, and there has to be one. -/
theorem decode_eq (s : Select V) (a : α) {offset : Nat} {guard : Option Literal}
    (hguard : ∀ l ∈ guard, l.index < Assignment.size a ∧ l.index < Literal.indexBound)
    (hsize : offset + s.size ≤ Assignment.size a) (hbound : offset + s.size < Address.bound) :
    s.decode a offset guard =
      if guard.all (·.holds (Assignment.bit a)) && (!s.optional || Assignment.bit a offset) then
        match s.selection (s.placesOn (Assignment.bit a) offset) with
        | some selection => .ok (some selection)
        | none => .error (.noOptionSet s.label)
      else .ok none := by
  have hwidth : s.size = s.domain.size + s.firstOption := rfl
  have hoffset : s.optional = true → offset < Assignment.size a := by
    intro hoptional
    have hfirst : s.firstOption = 1 := by rw [firstOption, hoptional]; rfl
    omega
  rw [decode, isActive_eq a hguard hoffset]
  cases hactive : guard.all (·.holds (Assignment.bit a)) &&
      (!s.optional || Assignment.bit a offset) with
  | false => rfl
  | true =>
    have hstart : Address.add offset s.firstOption = .ok (offset + s.firstOption) :=
      Address.add_eq_ok (by omega)
    have hstop : Address.add (offset + s.firstOption) s.domain.size =
        .ok (offset + s.firstOption + s.domain.size) := Address.add_eq_ok (by omega)
    have hscan := decodeFrom_eq a (offset + s.firstOption)
      (offset + s.firstOption + s.domain.size) 0 s.domain.values rfl (by omega)
    obtain ⟨r, hr, hfirst⟩ := Assignment.isFirst_firstSet a (offset + s.firstOption)
      (offset + s.firstOption + s.domain.size) (by omega)
    rw [ok_bind, if_pos rfl, if_pos rfl, hstart, ok_bind, hstop, ok_bind, selection,
      valuesAt_placesOn]
    cases s.kind with
    | nominal =>
      have hhead := head?_valuesWhere hfirst
      simp only [hr, ok_bind, hhead]
      cases r with
      | none => rfl
      | some d =>
        have hd : d < s.domain.values.length := by
          have hlt := hfirst.1
          rw [Domain.size] at hlt
          omega
        simp [List.getElem?_eq_getElem hd, pure, Except.pure]
    | multiple =>
      simp only [hscan, ok_bind]
      generalize valuesWhere _ 0 s.domain.values = values
      cases values with
      | nil => rfl
      | cons v vs => rfl

end Select

end ChoiceTree
