import Mathlib
import ChoiceTree.Address
import ChoiceTree.Proofs.Edits

/-!
# The search by words

A bit array looks for a set bit word by word, any other assignment bit by bit. That both find
the same is `LawfulAssignment`. This module says what they find, and how the search by words
goes about it: which word it reads when, and with what positions it calculates.

* `scanBits_congr`, `firstSetBitwise_congr` — the search by bits, from the bits of its window;
* `BitArray.Scans`, `BitArray.Searches` — the search by words as a sequence of reads, each of
  a word that there is;
* `BitArray.searches_iff` — the search comes to an end, with the answer of `firstSet`;
* `BitArray.firstSet_isLeast` — the answer.
-/

namespace ChoiceTree

/-! ## The search by bits -/

theorem scanBits_congr {f g : Nat → Except Fault Bool} {start count : Nat}
    (h : ∀ i, start ≤ i → i < start + count → f i = g i) :
    scanBits f start count = scanBits g start count := by
  induction count generalizing start with
  | zero => rfl
  | succ count ih =>
    have hrest := @ih (start + 1) fun i hi hlt => h i (by omega) (by omega)
    rw [scanBits, scanBits, h start (Nat.le_refl _) (by omega), hrest]

/-- Readers that agree on every bit there is find the same. -/
theorem firstSetBitwise_congr {size : Nat} {f g : Nat → Except Fault Bool}
    (h : ∀ i < size, f i = g i) (start stop : Nat) :
    firstSetBitwise size f start stop = firstSetBitwise size g start stop := by
  unfold firstSetBitwise
  by_cases hempty : stop ≤ start
  · rw [if_pos hempty, if_pos hempty]
  · by_cases hstop : stop ≤ size
    · rw [if_neg hempty, if_neg hempty, if_pos hstop, if_pos hstop,
        scanBits_congr fun i _ hlt => h i (by omega)]
    · rw [if_neg hempty, if_neg hempty, if_neg hstop, if_neg hstop]

theorem isFirst_some_iff {p : Nat → Bool} {start stop d : Nat} :
    IsFirst p start stop (some d) ↔ IsLeast {d | start + d < stop ∧ p (start + d) = true} d := by
  constructor
  · intro h
    obtain ⟨hlt, hset, hmin⟩ := h
    refine ⟨⟨hlt, hset⟩, fun e he => ?_⟩
    by_contra hle
    have hunset := hmin (start + e) (by omega) (by omega)
    rw [he.2] at hunset
    cases hunset
  · intro h
    obtain ⟨⟨hlt, hset⟩, hmin⟩ := h
    refine ⟨hlt, hset, fun i hi hlt' => ?_⟩
    obtain ⟨e, rfl⟩ := Nat.exists_eq_add_of_le hi
    by_contra hne
    have hle : d ≤ e := hmin ⟨by omega, Bool.eq_true_of_not_eq_false hne⟩
    omega

theorem isFirst_none_iff {p : Nat → Bool} {start stop : Nat} :
    IsFirst p start stop none ↔ ∀ d, start + d < stop → p (start + d) = false := by
  constructor
  · exact fun h d hlt => h (start + d) (Nat.le_add_right _ _) hlt
  · intro h i hi hlt
    obtain ⟨d, rfl⟩ := Nat.exists_eq_add_of_le hi
    exact h d hlt

namespace BitArray

/-! ## The search by words -/

/-- `a.Scans start stop k word r`: from word `k` on, of which `word` is left to look at, the
search for a set bit of the window comes to an end with `r`. A word is read by its place, which
has to be that of a word; no position leaves the range of addresses, and none is subtracted
from a lower one. -/
inductive Scans (a : BitArray) (start stop : Nat) : Nat → BitVec 64 → Option Nat → Prop
  | found {k : Nat} {word : BitVec 64} : word ≠ 0 →
      k * 64 + word.ctz.toNat < Address.bound → k * 64 + word.ctz.toNat < stop →
      start ≤ k * 64 + word.ctz.toNat →
      Scans a start stop k word (some (k * 64 + word.ctz.toNat - start))
  | past {k : Nat} {word : BitVec 64} : word ≠ 0 →
      k * 64 + word.ctz.toNat < Address.bound → stop ≤ k * 64 + word.ctz.toNat →
      Scans a start stop k word none
  | done {k : Nat} {word : BitVec 64} : word = 0 → (k + 1) * 64 < Address.bound →
      stop ≤ (k + 1) * 64 → Scans a start stop k word none
  | next {k : Nat} {word following : BitVec 64} {r : Option Nat} : word = 0 →
      (k + 1) * 64 < Address.bound → (k + 1) * 64 < stop → a.words[k + 1]? = some following →
      Scans a start stop (k + 1) following r → Scans a start stop k word r

/-- The search of a window as a whole: it reads the word of the first bit and passes over the
bits in front of that one. -/
def Searches (a : BitArray) (start stop : Nat) (r : Option Nat) : Prop :=
  ∃ first, a.words[start / 64]? = some first ∧
    a.Scans start stop (start / 64) (first &&& (BitVec.allOnes 64 <<< (start % 64))) r

/-- The search has one answer. -/
theorem Scans.unique {a : BitArray} {start stop k : Nat} {word : BitVec 64} {r r' : Option Nat}
    (h : a.Scans start stop k word r) (h' : a.Scans start stop k word r') : r = r' := by
  induction h with
  | found hne _ hlt _ =>
    cases h' with
    | found => rfl
    | past _ _ hle => omega
    | done hzero => exact absurd hzero hne
    | next hzero => exact absurd hzero hne
  | past hne _ hle =>
    cases h' with
    | found _ _ hlt => omega
    | past => rfl
    | done hzero => exact absurd hzero hne
    | next hzero => exact absurd hzero hne
  | done hzero _ hle =>
    cases h' with
    | found hne => exact absurd hzero hne
    | past hne => exact absurd hzero hne
    | done => rfl
    | next _ _ hlt => omega
  | next hzero _ hlt hread _ ih =>
    cases h' with
    | found hne => exact absurd hzero hne
    | past hne => exact absurd hzero hne
    | done _ _ hle => omega
    | next _ _ _ hread' h' =>
      cases hread.symm.trans hread'
      exact ih h'

/-- A word without a bit in front of the window has its lowest bit in the window or behind. -/
theorem le_lowest {start k : Nat} {word : BitVec 64} (hne : word ≠ 0)
    (hclear : ∀ j, k * 64 + j < start → word.getLsbD j = false) :
    start ≤ k * 64 + word.ctz.toNat := by
  by_contra hlt
  have hunset := hclear word.ctz.toNat (Nat.not_le.mp hlt)
  rw [BitVec.getLsbD_true_ctz_of_ne_zero hne] at hunset
  cases hunset

theorem ctz_lt {word : BitVec 64} (hne : word ≠ 0) : word.ctz.toNat < 64 := by
  have hlt := BitVec.ctz_lt_iff_ne_zero.mpr hne
  rwa [BitVec.lt_def] at hlt

/-- **The search by words comes to an end.** The word that it looks at begins inside the
window, and what is left of it has no bit in front of the window. -/
theorem scans_scanWords (a : BitArray) (small : a.size ≤ 2 ^ 63) (start stop : Nat)
    (hstop : stop ≤ a.size) (k : Nat) (word : BitVec 64) (hk : k * 64 < stop)
    (hclear : ∀ j, k * 64 + j < start → word.getLsbD j = false)
    (hreach : start < (k + 1) * 64) :
    a.Scans start stop k word (a.scanWords start stop hstop k word) := by
  have hbound : Address.bound = 2 ^ 64 := rfl
  fun_induction scanWords a start stop hstop k word with
  | case1 k word hne index hlt =>
    have hctz := ctz_lt hne
    exact .found hne (by omega) hlt (le_lowest hne hclear)
  | case2 k word hne index hlt =>
    have hctz := ctz_lt hne
    exact .past hne (by omega) (Nat.not_lt.mp hlt)
  | case3 k word hzero hend => exact .done (by simpa using hzero) (by omega) hend
  | case4 k word hzero hend hsize ih =>
    have hinside : (k + 1) * 64 < stop := Nat.not_le.mp hend
    have hread : a.words[k + 1]? = some a.words[k + 1] := Array.getElem?_eq_getElem hsize
    -- the next word begins behind the start of the window
    have hbehind : ∀ j, ¬(k + 1) * 64 + j < start := fun j => by omega
    have hreach' : start < (k + 1 + 1) * 64 :=
      Nat.lt_of_lt_of_le hreach (Nat.mul_le_mul_right 64 (Nat.le_succ _))
    have hrest := ih hinside (fun j hj => absurd hj (hbehind j)) hreach'
    exact .next (by simpa using hzero) (by omega) hinside hread hrest

/-- The mask takes the bits in front of the window out of its first word. -/
theorem getLsbD_mask {start j : Nat} (word : BitVec 64) (hj : start / 64 * 64 + j < start) :
    (word &&& (BitVec.allOnes 64 <<< (start % 64))).getLsbD j = false := by
  have hmask : (BitVec.allOnes 64 <<< (start % 64)).getLsbD j = false := by
    rw [BitVec.getLsbD_shiftLeft, decide_eq_true (show j < start % 64 by omega)]
    simp
  rw [BitVec.getLsbD_and, hmask, Bool.and_false]

/-- A window that ends inside the array is searched to an end, with the answer of `firstSet`. -/
theorem searches_iff (a : BitArray) (small : a.size ≤ 2 ^ 63) {start stop : Nat}
    (hstart : start < stop) (hstop : stop ≤ a.size) (r : Option Nat) :
    a.Searches start stop r ↔ a.firstSet start stop = .ok r := by
  have hsize := a.div_lt_words_size (Nat.lt_of_lt_of_le hstart hstop)
  have hread : a.words[start / 64]? = some a.words[start / 64] := Array.getElem?_eq_getElem hsize
  have hscans : a.Scans start stop (start / 64)
      (a.words[start / 64] &&& (BitVec.allOnes 64 <<< (start % 64)))
      (a.firstSetWithin start stop hstart hstop) :=
    a.scans_scanWords small start stop hstop _ _ (by omega)
      (fun j hj => getLsbD_mask _ hj) (by omega)
  rw [firstSet, dif_pos hstart, dif_pos hstop, Except.ok.injEq]
  constructor
  · intro h
    obtain ⟨first, hfirst, h⟩ := h
    cases hread.symm.trans hfirst
    exact hscans.unique h
  · rintro rfl
    exact ⟨_, hread, hscans⟩

/-! ## What is found -/

theorem isSet_eq_false {a : BitArray} {i : Nat} (h : i < a.size) :
    a.isSet i = .ok false ↔ a.bit i = false := by
  rw [isSet, if_pos h, Except.ok.injEq]

/-- The answer for a window that ends inside the array. -/
theorem firstSet_eq_ok (a : BitArray) {start stop : Nat} (hstart : start < stop)
    (hstop : stop ≤ a.size) (r : Option Nat) :
    a.firstSet start stop = .ok r ↔ IsFirst a.bit start stop r := by
  have hfirst := a.isFirst_firstSetWithin start stop hstart hstop
  rw [firstSet, dif_pos hstart, dif_pos hstop, Except.ok.injEq]
  constructor
  · rintro rfl
    exact hfirst
  · exact hfirst.unique

/-- The search only faults on a window that ends outside the array. -/
theorem firstSet_eq_error (a : BitArray) (start stop : Nat) (fault : Fault) :
    a.firstSet start stop = .error fault ↔
      start < stop ∧ a.size < stop ∧ fault = .windowRange stop a.size := by
  unfold firstSet
  by_cases hstart : start < stop
  · by_cases hstop : stop ≤ a.size
    · simp [hstart, hstop]
    · simp [hstart, hstop, Nat.not_le.mp hstop, eq_comm]
  · simp [hstart]

/-- **The search by words finds what the search by bits finds.** Whatever reads the same bits
one by one comes to the same answer and to the same fault, and there is a fault exactly for a
window with bits in it that ends outside the array. In any other window with bits in it, the
answer is the least distance from its start to a set bit. The search by words gets there in
finitely many steps, reads no word that there is not, and calculates with addresses only. -/
theorem firstSet_isLeast (a : BitArray) (small : a.size ≤ 2 ^ 63) (start stop : Nat) :
    (∀ read : Nat → Except Fault Bool, (∀ i < a.size, read i = a.isSet i) →
      a.firstSet start stop = firstSetBitwise a.size read start stop) ∧
    (stop ≤ start → a.firstSet start stop = .ok none) ∧
    (∀ fault, a.firstSet start stop = .error fault ↔
      start < stop ∧ a.size < stop ∧ fault = .windowRange stop a.size) ∧
    (start < stop → stop ≤ a.size →
      (∀ d, a.firstSet start stop = .ok (some d) ↔
        IsLeast {d | start + d < stop ∧ a.isSet (start + d) = .ok true} d) ∧
      (a.firstSet start stop = .ok none ↔
        ∀ d, start + d < stop → a.isSet (start + d) = .ok false) ∧
      ∀ r, a.Searches start stop r ↔ a.firstSet start stop = .ok r) := by
  refine ⟨?_, ?_, a.firstSet_eq_error start stop, ?_⟩
  · intro read hread
    have hlawful : a.firstSet start stop = firstSetBitwise a.size a.isSet start stop :=
      LawfulAssignment.firstSet_eq a start stop
    rw [hlawful, firstSetBitwise_congr hread]
  · exact fun hempty => dif_neg (Nat.not_lt.mpr hempty)
  · intro hstart hstop
    refine ⟨fun d => ?_, ?_, a.searches_iff small hstart hstop⟩
    · rw [a.firstSet_eq_ok hstart hstop, isFirst_some_iff]
      simp only [isSet_eq_true]
    · rw [a.firstSet_eq_ok hstart hstop, isFirst_none_iff]
      refine forall₂_congr fun d hlt => ?_
      rw [isSet_eq_false (Nat.lt_of_lt_of_le hlt hstop)]

/-- Two set bits, with a whole word between theirs. -/
def sparse : BitArray := .ofFn 200 fun i => decide (i = 2 ∨ i = 130)

/-- From the bit behind a word boundary on, the search reads two words and finds the second
bit, as long as the window does not end right in front of it. -/
theorem sparse_firstSet :
    sparse.size ≤ 2 ^ 63 ∧ 64 < 131 ∧ 131 ≤ sparse.size ∧
    IsLeast {d | 64 + d < 131 ∧ sparse.isSet (64 + d) = .ok true} 66 ∧
    sparse.firstSet 64 131 = .ok (some 66) ∧ sparse.Searches 64 131 (some 66) ∧
    sparse.firstSet 64 130 = .ok none ∧ sparse.Searches 64 130 none ∧
    sparse.firstSet 64 201 = .error (.windowRange 201 200) := by
  have small : sparse.size ≤ 2 ^ 63 := by decide
  have hset : ∀ i, sparse.isSet i = .ok true ↔ i < 200 ∧ (i = 2 ∨ i = 130) := by
    intro i
    rw [isSet_eq_true, sparse, bit_ofFn, Bool.and_eq_true, decide_eq_true_iff, decide_eq_true_iff]
  have hleast : IsLeast {d | 64 + d < 131 ∧ sparse.isSet (64 + d) = .ok true} 66 := by
    simp only [hset]
    exact ⟨⟨by decide, by decide⟩, fun d hd => by have := hd.2; omega⟩
  obtain ⟨_, _, _, hwithin⟩ := sparse.firstSet_isLeast small 64 131
  obtain ⟨hsome, _, hsearches⟩ := hwithin (by decide) (by decide)
  have hfound := (hsome 66).mpr hleast
  obtain ⟨_, _, _, hshort⟩ := sparse.firstSet_isLeast small 64 130
  obtain ⟨_, hnone, hsearches'⟩ := hshort (by decide) (by decide)
  have hmissed : sparse.firstSet 64 130 = .ok none := by
    refine hnone.mpr fun d hlt => (isSet_eq_false (show 64 + d < 200 by omega)).mpr ?_
    rw [← Bool.not_eq_true, ← isSet_eq_true, hset]
    omega
  obtain ⟨_, _, hfault, _⟩ := sparse.firstSet_isLeast small 64 201
  exact ⟨small, by decide, by decide, hleast, hfound, (hsearches _).mpr hfound, hmissed,
    (hsearches' _).mpr hmissed, (hfault _).mpr ⟨by decide, by decide, rfl⟩⟩

end BitArray

end ChoiceTree
