import Mathlib
import ChoiceTree.Assignment.BitArray.Bits
import ChoiceTree.Assignment.BitArray.Search

/-!
# Bit arrays are vectors of truth values

Counting, searching and comparing look at whole words, also at the bits of the last one
that lie past the end. That they see nothing there is the invariant of `BitArray`. Here it
pays off: whatever is done to an array, all that can be seen of it is what can be seen of a
list of truth values to which the same is done.

* `Edit` — what can be done, to an array and to a list of truth values;
* `Edit.apply_bools`, `Edit.run_bools` — one edit does the same to both, and so does any
  sequence of them;
* `BitArray.countOnes_eq_countP`, `BitArray.ones_eq`, `BitArray.mem_ones` — counting and
  iterating;
* `Edit.run_refines` — the refinement.
-/

namespace ChoiceTree

/-- Something to do to a vector of bits. -/
inductive Edit where
  /-- Start again with `size` unset bits. -/
  | zeros (size : Nat)
  /-- Start again with `size` bits of which exactly the listed ones are set. -/
  | ofBits (size : Nat) (ones : List Nat)
  | set (index : Nat) (value : Bool)
  | flip (index : Nat)

namespace Edit

/-- The edit of an array: what is left of it, and the fault if there was one. An array that
could not be made is not seen. -/
def apply (a : BitArray) : Edit → BitArray × Option Fault
  | .zeros size => (.zeros size, none)
  | .ofBits size ones =>
    match BitArray.ofBits size ones with
    | .ok b => (b, none)
    | .error fault => (a, some fault)
  | .set index value => a.trySet index value
  | .flip index => a.tryFlip index

/-- The edit of a list of truth values; one that has a fault changes nothing. The first
listed bit that there is no room for is the fault of a whole list. -/
def applyBools (bits : List Bool) : Edit → List Bool × Option Fault
  | .zeros size => (.replicate size false, none)
  | .ofBits size ones =>
    match ones.find? (size ≤ ·) with
    | some index => (bits, some (.bitRange index size))
    | none => ((List.range size).map fun i => decide (i ∈ ones), none)
  | .set index value =>
    if index < bits.length then (bits.set index value, none)
    else (bits, some (.bitRange index bits.length))
  | .flip index =>
    if index < bits.length then (bits.modify index not, none)
    else (bits, some (.bitRange index bits.length))

/-- Does one edit after the other, each to what the one before has left. What is left at the
end, and the fault of each edit that had one. -/
def run {σ : Type} (step : σ → Edit → σ × Option Fault) (s : σ) :
    List Edit → σ × List (Option Fault)
  | [] => (s, [])
  | e :: rest => (run step (step s e).1 rest).map id ((step s e).2 :: ·)

end Edit

namespace BitArray

/-- The truth values of the bits. -/
def bools (a : BitArray) : List Bool := (List.range a.size).map a.bit

@[simp] theorem length_bools (a : BitArray) : a.bools.length = a.size := by
  simp [bools]

theorem getElem?_bools (a : BitArray) (i : Nat) :
    a.bools[i]? = if i < a.size then some (a.bit i) else none := by
  by_cases h : i < a.size
  · simp [bools, h]
  · simp [bools, h]

/-- A list that has the array's truth values place by place is the list of them. -/
theorem bools_eq {a : BitArray} {bits : List Bool} (hsize : bits.length = a.size)
    (hbits : ∀ i < a.size, bits[i]? = some (a.bit i)) : a.bools = bits := by
  apply List.ext_getElem?
  intro i
  rw [getElem?_bools]
  by_cases h : i < a.size
  · rw [if_pos h, hbits i h]
  · rw [if_neg h, List.getElem?_eq_none (by omega)]

/-! ## One edit -/

/-- Setting bit after bit sets the listed ones, unless one of them is out of range. -/
theorem setAll_eq (a : BitArray) (ones : List Nat) :
    ones.foldlM (fun a index => a.set index true) a =
      match ones.find? (a.size ≤ ·) with
      | some index => .error (.bitRange index a.size)
      | none => .ok (ofFn a.size fun i => a.bit i || decide (i ∈ ones)) := by
  induction ones generalizing a with
  | nil =>
    have hsame : ofFn a.size (fun i => a.bit i || decide (i ∈ ([] : List Nat))) = a := by
      refine ext_bit rfl fun i hi => ?_
      rw [size_ofFn] at hi
      simp [hi]
    show Except.ok a = Except.ok (ofFn a.size fun i => a.bit i || decide (i ∈ []))
    rw [hsame]
  | cons index ones ih =>
    rw [List.foldlM_cons]
    by_cases h : index < a.size
    · obtain ⟨b, hb, hsize, hbit⟩ := a.trySet_of_lt true h
      have hsame : ofFn b.size (fun i => b.bit i || decide (i ∈ ones)) =
          ofFn a.size fun i => a.bit i || decide (i ∈ index :: ones) := by
        refine ext_bit hsize fun i _ => ?_
        rw [bit_ofFn, bit_ofFn, hbit, hsize]
        by_cases hi : i = index
        · simp [hi]
        · simp [hi]
      rw [set, hb, List.find?_cons_of_neg (by simpa using h), ← hsame, ← hsize]
      exact ih b
    · rw [set, a.trySet_of_size_le true (Nat.not_lt.mp h),
        List.find?_cons_of_pos (by simpa using h)]
      rfl

end BitArray

/-- **An edit does the same to an array and to its truth values.** -/
theorem Edit.apply_bools (a : BitArray) (e : Edit) :
    e.applyBools a.bools = (e.apply a).map BitArray.bools id := by
  cases e with
  | zeros size =>
    refine congrArg (·, none) (BitArray.bools_eq (by simp) ?_).symm
    intro i hi
    rw [BitArray.size_zeros] at hi
    simp [hi]
  | ofBits size ones =>
    rw [apply, applyBools, BitArray.ofBits, BitArray.setAll_eq, BitArray.size_zeros]
    cases ones.find? (size ≤ ·) with
    | some index => rfl
    | none =>
      refine congrArg (·, none) (BitArray.bools_eq (by simp) ?_).symm
      intro i hi
      rw [BitArray.size_ofFn] at hi
      simp [hi]
  | set index value =>
    rw [apply, applyBools, BitArray.length_bools]
    by_cases h : index < a.size
    · obtain ⟨b, hb, hsize, hbit⟩ := a.trySet_of_lt value h
      rw [hb, if_pos h]
      refine congrArg (·, none) (BitArray.bools_eq (by simp [hsize]) ?_).symm
      intro i hi
      rw [List.getElem?_set, BitArray.getElem?_bools, BitArray.length_bools, hbit]
      by_cases hi' : i = index
      · simp [hi', h]
      · simp [hi', Ne.symm hi', hsize ▸ hi]
    · rw [a.trySet_of_size_le value (Nat.not_lt.mp h), if_neg h]
      rfl
  | flip index =>
    rw [apply, applyBools, BitArray.length_bools]
    by_cases h : index < a.size
    · obtain ⟨b, hb, hsize, hbit⟩ := a.tryFlip_of_lt h
      rw [hb, if_pos h]
      refine congrArg (·, none) (BitArray.bools_eq (by simp [hsize]) ?_).symm
      intro i hi
      rw [List.getElem?_modify, BitArray.getElem?_bools, hbit, if_pos (hsize ▸ hi)]
      by_cases hi' : i = index
      · simp [hi']
      · simp [hi', Ne.symm hi']
    · rw [a.tryFlip_of_size_le (Nat.not_lt.mp h), if_neg h]
      rfl

/-- **Any edits do the same to an array and to its truth values**, and have the same faults. -/
theorem Edit.run_bools (a : BitArray) (es : List Edit) :
    run applyBools a.bools es = (run apply a es).map BitArray.bools id := by
  induction es generalizing a with
  | nil => rfl
  | cons e rest ih =>
    rw [run, run, e.apply_bools a]
    show (run applyBools (e.apply a).1.bools rest).map id _ = _
    rw [ih]
    rfl

/-! ## Counting -/

/-- The population count counts the set bits. -/
theorem toNat_cpop (word : BitVec 64) : word.cpop.toNat = (List.range 64).countP word.getLsbD := by
  have hrec : ∀ k, word.cpopNatRec k 0 = (List.range k).countP word.getLsbD := by
    intro k
    induction k with
    | zero => rfl
    | succ k ih =>
      rw [BitVec.cpopNatRec_succ, BitVec.cpopNatRec_add, ih, List.range_succ, List.countP_append,
        List.countP_singleton]
      cases word.getLsbD k <;> rfl
  rw [BitVec.toNat_cpop, hrec]

/-- Word by word, all set bits are counted. -/
theorem foldr_cpop (words : List (BitVec 64)) :
    words.foldr (fun word count => word.cpop.toNat + count) 0 =
      (List.range (64 * words.length)).countP fun i =>
        (words.getD (i / 64) 0).getLsbD (i % 64) := by
  induction words with
  | nil => rfl
  | cons word words ih =>
    have hfirst : (List.range 64).countP word.getLsbD = (List.range 64).countP fun i =>
        ((word :: words).getD (i / 64) 0).getLsbD (i % 64) := by
      refine List.countP_congr fun i hi => ?_
      have hi : i < 64 := List.mem_range.mp hi
      rw [Nat.div_eq_of_lt hi, Nat.mod_eq_of_lt hi]
      rfl
    have hrest : ∀ i, (words.getD (i / 64) 0).getLsbD (i % 64) =
        ((word :: words).getD ((64 + i) / 64) 0).getLsbD ((64 + i) % 64) := by
      intro i
      rw [show (64 + i) / 64 = i / 64 + 1 by omega, show (64 + i) % 64 = i % 64 by omega]
      rfl
    rw [List.foldr_cons, ih, toNat_cpop, List.length_cons, Nat.mul_succ, Nat.add_comm (64 * _),
      List.range_add, List.countP_append, List.countP_map, hfirst]
    simp only [hrest]
    rfl

namespace BitArray

/-- The words hold the bits of the array, and past the end they are clear. -/
theorem countOnes_eq_countP (a : BitArray) : a.countOnes = (List.range a.size).countP a.bit := by
  obtain ⟨rest, hrest⟩ : ∃ rest, 64 * a.words.size = a.size + rest :=
    ⟨64 * a.words.size - a.size, by have := a.words_size; omega⟩
  have hclear : (List.range rest).countP (a.bit ∘ (a.size + ·)) = 0 := by
    rw [List.countP_eq_zero]
    intro i _
    simp
  have hwords : ∀ i, (a.words.toList.getD (i / 64) 0).getLsbD (i % 64) = a.bit i := by
    intro i
    rw [bit, wordBit]
    simp
  rw [countOnes, foldr_cpop, Array.length_toList, hrest]
  simp only [hwords]
  rw [List.range_add, List.countP_append, List.countP_map]
  exact congrArg _ hclear

/-! ## Iterating -/

theorem isSet_eq_true {a : BitArray} {i : Nat} : a.isSet i = .ok true ↔ a.bit i = true := by
  unfold isSet
  split
  · exact ⟨Except.ok.inj, congrArg Except.ok⟩
  · next h => simp [a.bit_of_size_le (Nat.not_lt.mp h)]

/-- `a.Yields next ones`: an iteration that goes on at `next` comes to an end, and `ones` are
its items. It asks for the first set bit, and the next time from behind it. -/
inductive Yields (a : BitArray) : Nat → List Nat → Prop
  | done {next : Nat} : a.firstSet next a.size = .ok none → Yields a next []
  | item {next skip : Nat} {ones : List Nat} : a.firstSet next a.size = .ok (some skip) →
      Yields a (next + skip + 1) ones → Yields a next ((next + skip) :: ones)

theorem yields_onesFrom (a : BitArray) (next : Nat) : a.Yields next (a.onesFrom next) := by
  fun_induction onesFrom a next with
  | case1 next h hnone =>
    refine .done ?_
    rw [firstSet, dif_pos h, dif_pos (Nat.le_refl _), hnone]
  | case2 next h skip hskip ih =>
    refine .item ?_ ih
    rw [firstSet, dif_pos h, dif_pos (Nat.le_refl _), hskip]
  | case3 next h => exact .done (dif_neg h)

/-- Nothing is left of a window without a set bit. -/
theorem filter_range'_eq_nil {p : Nat → Bool} {start count : Nat}
    (h : ∀ i, start ≤ i → i < start + count → p i = false) :
    (List.range' start count).filter p = [] := by
  rw [List.filter_eq_nil_iff]
  intro i hi
  obtain ⟨hle, hlt⟩ := List.mem_range'_1.mp hi
  rw [h i hle hlt]
  exact Bool.false_ne_true

/-- The iteration passes over the unset bits. -/
theorem onesFrom_eq (a : BitArray) (next : Nat) :
    a.onesFrom next = (List.range' next (a.size - next)).filter a.bit := by
  fun_induction onesFrom a next with
  | case1 next h hnone =>
    have hfirst := a.isFirst_firstSetWithin next a.size h (Nat.le_refl _)
    rw [hnone] at hfirst
    exact (filter_range'_eq_nil fun i hle hlt => hfirst i hle (by omega)).symm
  | case2 next h skip hskip ih =>
    have hfirst := a.isFirst_firstSetWithin next a.size h (Nat.le_refl _)
    rw [hskip] at hfirst
    obtain ⟨hlt, hset, hunset⟩ := hfirst
    have hskipped : (List.range' next skip).filter a.bit = [] := filter_range'_eq_nil hunset
    have hsplit : a.size - next = skip + (1 + (a.size - (next + skip + 1))) := by omega
    rw [ih, hsplit, ← List.range'_append_1, ← List.range'_append_1, List.filter_append,
      List.filter_append, hskipped, List.nil_append]
    show _ = [next + skip].filter a.bit ++ _
    rw [List.filter_singleton, hset]
    rfl
  | case3 next h => rw [Nat.sub_eq_zero_of_le (Nat.not_lt.mp h)]; rfl

/-- The iteration comes to the set bits in their order. -/
theorem ones_eq (a : BitArray) : a.ones = (List.range a.size).filter a.bit := by
  rw [ones, onesFrom_eq, List.range_eq_range', Nat.sub_zero]

theorem mem_ones {a : BitArray} {i : Nat} : i ∈ a.ones ↔ i < a.size ∧ a.isSet i = .ok true := by
  rw [ones_eq, List.mem_filter, List.mem_range, isSet_eq_true]

theorem pairwise_ones (a : BitArray) : a.ones.Pairwise (· < ·) := by
  rw [ones_eq]
  exact List.pairwise_lt_range.filter _

/-- As many bits are counted as the iteration comes to. -/
theorem countOnes_eq_length (a : BitArray) : a.countOnes = a.ones.length := by
  rw [countOnes_eq_countP, ones_eq, List.countP_eq_length_filter]

/-! ## The refinement -/

/-- All that can be seen of the array is that its bits are `bits`. -/
structure Shows (a : BitArray) (bits : List Bool) : Prop where
  size_eq : a.size = bits.length
  isSet_eq : ∀ i, a.isSet i = match bits[i]? with
    | some value => .ok value
    | none => .error (.bitRange i bits.length)
  countOnes_eq : a.countOnes = {i ∈ Finset.range a.size | a.isSet i = .ok true}.card
  mem_ones : ∀ i, i ∈ a.ones ↔ i < a.size ∧ a.isSet i = .ok true
  pairwise_ones : a.ones.Pairwise (· < ·)
  yields_ones : a.Yields 0 a.ones
  beq_iff : ∀ b : BitArray, (a == b) = true ↔
    a.size = b.size ∧ ∀ i < a.size, a.isSet i = b.isSet i

theorem shows_bools (a : BitArray) : a.Shows a.bools where
  size_eq := a.length_bools.symm
  isSet_eq i := by
    rw [isSet, getElem?_bools, length_bools]
    split <;> rfl
  countOnes_eq := by
    have hones : a.ones.toFinset = {i ∈ Finset.range a.size | a.isSet i = .ok true} := by
      ext i
      simp [mem_ones]
    rw [countOnes_eq_length, ← hones, List.toFinset_card_of_nodup]
    exact a.pairwise_ones.imp Nat.ne_of_lt
  mem_ones _ := mem_ones
  pairwise_ones := a.pairwise_ones
  yields_ones := a.yields_onesFrom 0
  beq_iff b := by
    rw [beq_iff_eq]
    constructor
    · rintro rfl
      exact ⟨rfl, fun _ _ => rfl⟩
    · intro h
      obtain ⟨hsize, hsame⟩ := h
      refine ext_bit hsize fun i hi => ?_
      have hbit := hsame i hi
      unfold isSet at hbit
      rw [if_pos hi, if_pos (hsize ▸ hi)] at hbit
      exact Except.ok.inj hbit

end BitArray

/-- **A bit array is a vector of truth values.** Whatever is done to it, the same edits fault
as of a list of truth values, and all that can be seen of it at the end is the list that is
left: what each bit is, how many are set, which ones in ascending order, and what other
arrays it is equal to. -/
theorem Edit.run_refines (a : BitArray) (es : List Edit) :
    (run apply a es).2 = (run applyBools a.bools es).2 ∧
    (run apply a es).1.Shows (run applyBools a.bools es).1 := by
  rw [run_bools]
  exact ⟨rfl, BitArray.shows_bools _⟩

end ChoiceTree
