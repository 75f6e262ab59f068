import ChoiceTree.Assignment.BitArray

/-!
# The bits of an array

What each operation does to the bits of an array. An array is determined by its
size and its bits, so nothing else has to be known about its words.
-/

namespace ChoiceTree.BitArray

@[simp] theorem bit_of_size_le (a : BitArray) {index : Nat} (h : a.size ≤ index) :
    a.bit index = false := a.clear index h

@[simp] theorem size_zeros (size : Nat) : (zeros size).size = size := rfl

@[simp] theorem bit_zeros (size index : Nat) : (zeros size).bit index = false := by
  simp only [bit, zeros, wordBit, Array.getD_eq_getD_getElem?, Array.getElem?_replicate]
  split <;> simp

@[simp] theorem size_ofFn (size : Nat) (p : Nat → Bool) : (ofFn size p).size = size := rfl

@[simp] theorem bit_ofFn (size : Nat) (p : Nat → Bool) (index : Nat) :
    (ofFn size p).bit index = (decide (index < size) && p index) := by
  have hindex : index / 64 * 64 + index % 64 = index := by omega
  by_cases h : index < size
  · have hk : index / 64 < (size + 63) / 64 := by omega
    have hj : index % 64 < 64 := by omega
    have hword : (ofFn size p).words.getD (index / 64) 0 =
        pack (fun j => decide (index / 64 * 64 + j < size) && p (index / 64 * 64 + j)) 64 := by
      simp [ofFn, Array.getD_eq_getD_getElem?, hk]
    rw [bit, wordBit, hword, getLsbD_pack, hindex]
    simp [hj]
  · rw [bit_of_size_le _ (Nat.not_lt.1 h)]
    simp [h]

/-- Only the bit at the place of the update can change. -/
theorem bit_update (a : BitArray) (index : Nat) (h : index < a.size)
    (f : BitVec 64 → BitVec 64)
    (others : ∀ word j, j ≠ index % 64 → (f word).getLsbD j = word.getLsbD j) (i : Nat) :
    (a.update index h f others).bit i =
      if i = index then (f (a.words.getD (index / 64) 0)).getLsbD (index % 64) else a.bit i := by
  unfold bit update
  rw [wordBit_modify _ _ _ _ (a.div_lt_words_size h)]
  by_cases hi : i = index
  · simp [hi]
  · simp only [hi, if_false]
    split
    · next hword =>
      rw [others _ _ (by omega), ← hword]
      rfl
    · rfl

/-- Where there is no bit, nothing is changed. -/
theorem change_of_size_le (a : BitArray) {index : Nat} (h : a.size ≤ index)
    (f : BitVec 64 → BitVec 64)
    (others : ∀ word j, j ≠ index % 64 → (f word).getLsbD j = word.getLsbD j) :
    a.change index f others = (a, some (.bitRange index a.size)) := dif_neg (Nat.not_lt.2 h)

theorem trySet_of_size_le (a : BitArray) {index : Nat} (value : Bool) (h : a.size ≤ index) :
    a.trySet index value = (a, some (.bitRange index a.size)) := a.change_of_size_le h _ _

theorem tryFlip_of_size_le (a : BitArray) {index : Nat} (h : a.size ≤ index) :
    a.tryFlip index = (a, some (.bitRange index a.size)) := a.change_of_size_le h _ _

/-- Setting a bit of the array changes it and no other. -/
theorem trySet_of_lt (a : BitArray) {index : Nat} (value : Bool) (h : index < a.size) :
    ∃ b, a.trySet index value = (b, none) ∧ b.size = a.size ∧
      ∀ i, b.bit i = if i = index then value else a.bit i := by
  refine ⟨_, dif_pos h, rfl, fun i => ?_⟩
  rw [bit_update]
  split
  · have hj : index % 64 < 64 := by omega
    cases value <;> simp [hj]
  · rfl

/-- Flipping a bit of the array changes it and no other. -/
theorem tryFlip_of_lt (a : BitArray) {index : Nat} (h : index < a.size) :
    ∃ b, a.tryFlip index = (b, none) ∧ b.size = a.size ∧
      ∀ i, b.bit i = if i = index then !a.bit i else a.bit i := by
  refine ⟨_, dif_pos h, rfl, fun i => ?_⟩
  rw [bit_update]
  split
  · next hi =>
    have hj : index % 64 < 64 := by omega
    simp [hj, hi, bit, wordBit]
  · rfl

/-- Arrays of the same size with the same bits are equal. -/
theorem ext_bit {a b : BitArray} (hsize : a.size = b.size)
    (hbit : ∀ i, i < a.size → a.bit i = b.bit i) : a = b := by
  have hall : ∀ i, a.bit i = b.bit i := by
    intro i
    by_cases h : i < a.size
    · exact hbit i h
    · rw [a.bit_of_size_le (Nat.not_lt.1 h), b.bit_of_size_le (hsize ▸ Nat.not_lt.1 h)]
  have hwords : a.words = b.words := by
    apply Array.ext
    · rw [a.words_size, b.words_size, hsize]
    · intro k hk hk'
      apply BitVec.eq_of_getLsbD_eq
      intro j hj
      have := hall (k * 64 + j)
      have hdiv : (k * 64 + j) / 64 = k := by omega
      have hmod : (k * 64 + j) % 64 = j := by omega
      simpa [bit, wordBit, hdiv, hmod, Array.getD_eq_getD_getElem?, hk, hk'] using this
  cases a
  cases b
  cases hsize
  cases hwords
  rfl

end ChoiceTree.BitArray
