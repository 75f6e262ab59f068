import ChoiceTree.Assignment.BitArray

/-!
# The word-wise search for a set bit

`BitArray.firstSet` skips whole words, the bitwise search looks at every bit.
Both find the first set bit of the window, and there is only one such bit, so
they agree: bit arrays are lawful assignments.
-/

namespace ChoiceTree

/-- `found` is the distance from `start` to the first of the positions
`start, …, stop - 1` at which `p` holds, if there is one. -/
def IsFirst (p : Nat → Bool) (start stop : Nat) : Option Nat → Prop
  | none => ∀ i, start ≤ i → i < stop → p i = false
  | some d => start + d < stop ∧ p (start + d) = true ∧
      ∀ i, start ≤ i → i < start + d → p i = false

/-- There is only one first position. -/
theorem IsFirst.unique {p : Nat → Bool} {start stop : Nat} {r r' : Option Nat}
    (h : IsFirst p start stop r) (h' : IsFirst p start stop r') : r = r' := by
  match r, r', h, h' with
  | none, none, _, _ => rfl
  | none, some d, h, ⟨hlt, hp, _⟩ =>
    have := h (start + d) (by omega) hlt
    simp [hp] at this
  | some d, none, ⟨hlt, hp, _⟩, h' =>
    have := h' (start + d) (by omega) hlt
    simp [hp] at this
  | some d, some d', ⟨_, hp, hmin⟩, ⟨_, hp', hmin'⟩ =>
    have hd : ¬d < d' := by
      intro hlt
      have := hmin' (start + d) (by omega) (by omega)
      simp [hp] at this
    have hd' : ¬d' < d := by
      intro hlt
      have := hmin (start + d') (by omega) (by omega)
      simp [hp'] at this
    exact congrArg some (by omega)

/-- Where every bit can be read, the bitwise search finds the first set one. -/
theorem isFirst_scanBits {isSet : Nat → Except Fault Bool} {p : Nat → Bool} {start count : Nat}
    (h : ∀ i, start ≤ i → i < start + count → isSet i = .ok (p i)) :
    ∃ r, scanBits isSet start count = .ok r ∧ IsFirst p start (start + count) r := by
  induction count generalizing start with
  | zero => exact ⟨none, rfl, fun i hi hlt => by omega⟩
  | succ count ih =>
    have hstart := h start (Nat.le_refl _) (by omega)
    cases hp : p start with
    | true =>
      refine ⟨some 0, ?_, by omega, by simpa using hp, fun i hi hlt => by omega⟩
      simp [scanBits, hstart, hp, bind, Except.bind, pure, Except.pure]
    | false =>
      obtain ⟨r, hr, hfirst⟩ := @ih (start + 1) fun i hi hlt => h i (by omega) (by omega)
      refine ⟨r.map (· + 1), ?_, ?_⟩
      · simp [scanBits, hstart, hp, hr, bind, Except.bind, pure, Except.pure]
      · have hstop : start + (count + 1) = start + 1 + count := by omega
        rw [hstop]
        cases r with
        | none =>
          intro i hi hlt
          by_cases hi' : i = start
          · rw [hi', hp]
          · exact hfirst i (by omega) hlt
        | some d =>
          obtain ⟨hlt, htrue, hmin⟩ := hfirst
          have hd : start + (d + 1) = start + 1 + d := by omega
          show start + (d + 1) < _ ∧ p (start + (d + 1)) = true ∧ ∀ i, _ → i < start + (d + 1) → _
          rw [hd]
          refine ⟨hlt, htrue, ?_⟩
          · intro i hi hi'
            by_cases hi'' : i = start
            · rw [hi'', hp]
            · exact hmin i (by omega) (by omega)

namespace BitArray

/-- A word holds 64 consecutive bits of the array. -/
theorem getLsbD_words (a : BitArray) (k j : Nat) (hk : k < a.words.size) (hj : j < 64) :
    a.words[k].getLsbD j = a.bit (k * 64 + j) := by
  have hdiv : (k * 64 + j) / 64 = k := by omega
  have hmod : (k * 64 + j) % 64 = j := by omega
  simp [bit, wordBit, hdiv, hmod, Array.getD_eq_getD_getElem?, hk]

/-- The lowest bit of a word other than zero is the first set bit of the array from
`start` on, provided that no set bit comes before the word. -/
theorem lowest_bit (a : BitArray) (start k : Nat) (word : BitVec 64) (hne : word ≠ 0)
    (hword : ∀ j, j < 64 → word.getLsbD j = (decide (start ≤ k * 64 + j) && a.bit (k * 64 + j)))
    (hbelow : ∀ i, start ≤ i → i < k * 64 → a.bit i = false) :
    start ≤ k * 64 + word.ctz.toNat ∧ a.bit (k * 64 + word.ctz.toNat) = true ∧
      ∀ i, start ≤ i → i < k * 64 + word.ctz.toNat → a.bit i = false := by
  have hlt : word.ctz.toNat < 64 := by
    have := BitVec.ctz_lt_iff_ne_zero.2 hne
    simpa [BitVec.lt_def] using this
  have hset := hword _ hlt
  rw [BitVec.getLsbD_true_ctz_of_ne_zero hne] at hset
  have hset := Bool.and_eq_true_iff.1 hset.symm
  refine ⟨by simpa using hset.1, hset.2, fun i hi hi' => ?_⟩
  by_cases hk : i < k * 64
  · exact hbelow i hi hk
  · have hj := hword (i - k * 64) (by omega)
    rw [BitVec.getLsbD_false_of_lt_ctz (by omega), show k * 64 + (i - k * 64) = i by omega] at hj
    simpa [hi] using hj.symm

/-- Past a word that is zero there is still no set bit. -/
theorem clear_through (a : BitArray) (start k : Nat) (word : BitVec 64) (hzero : word = 0)
    (hword : ∀ j, j < 64 → word.getLsbD j = (decide (start ≤ k * 64 + j) && a.bit (k * 64 + j)))
    (hbelow : ∀ i, start ≤ i → i < k * 64 → a.bit i = false) :
    ∀ i, start ≤ i → i < (k + 1) * 64 → a.bit i = false := by
  intro i hi hi'
  by_cases hk : i < k * 64
  · exact hbelow i hi hk
  · have hj := hword (i - k * 64) (by omega)
    rw [show k * 64 + (i - k * 64) = i by omega] at hj
    simpa [hzero, hi] using hj.symm

/-- The search finds the first set bit, provided that `word` holds the bits of
word `k` from `start` on and that no bit of the window comes before it. -/
theorem isFirst_scanWords (a : BitArray) (start stop : Nat) (hstop : stop ≤ a.size) (k : Nat)
    (word : BitVec 64) (hk : start < (k + 1) * 64)
    (hword : ∀ j, j < 64 → word.getLsbD j = (decide (start ≤ k * 64 + j) && a.bit (k * 64 + j)))
    (hbelow : ∀ i, start ≤ i → i < k * 64 → a.bit i = false) :
    IsFirst a.bit start stop (a.scanWords start stop hstop k word) := by
  fun_induction scanWords a start stop hstop k word with
  | case1 k word hne index hlt =>
    obtain ⟨hstart, hset, hmin⟩ := lowest_bit a start k word hne hword hbelow
    have hindex : start + (index - start) = index := by omega
    show start + (index - start) < stop ∧ a.bit (start + (index - start)) = true ∧
      ∀ i, start ≤ i → i < start + (index - start) → a.bit i = false
    rw [hindex]
    exact ⟨hlt, hset, hmin⟩
  | case2 k word hne index hlt =>
    obtain ⟨hstart, hset, hmin⟩ := lowest_bit a start k word hne hword hbelow
    exact fun i hi hi' => hmin i hi (by omega)
  | case3 k word hzero hend =>
    exact fun i hi hi' => clear_through a start k word (by simpa using hzero) hword hbelow i hi
      (Nat.lt_of_lt_of_le hi' hend)
  | case4 k word hzero hend hsize ih =>
    have hclear := clear_through a start k word (by simpa using hzero) hword hbelow
    have hnext : start < (k + 1 + 1) * 64 :=
      Nat.lt_of_lt_of_le hk (Nat.mul_le_mul_right 64 (Nat.le_succ _))
    have hwords : ∀ j, j < 64 → a.words[k + 1].getLsbD j =
        (decide (start ≤ (k + 1) * 64 + j) && a.bit ((k + 1) * 64 + j)) := by
      intro j hj
      have : start ≤ (k + 1) * 64 + j := Nat.le_trans (Nat.le_of_lt hk) (Nat.le_add_right _ _)
      simpa [this] using a.getLsbD_words (k + 1) j hsize hj
    exact ih hnext hwords hclear

/-- The window search finds the first set bit. -/
theorem isFirst_firstSetWithin (a : BitArray) (start stop : Nat) (hstart : start < stop)
    (hstop : stop ≤ a.size) :
    IsFirst a.bit start stop (a.firstSetWithin start stop hstart hstop) := by
  have hsize := a.div_lt_words_size (Nat.lt_of_lt_of_le hstart hstop)
  refine a.isFirst_scanWords start stop hstop (start / 64) _ (by omega) (fun j hj => ?_)
    (fun i hi hi' => by omega)
  have hmask : (BitVec.allOnes 64 <<< (start % 64)).getLsbD j = decide (start % 64 ≤ j) := by
    rw [BitVec.getLsbD_shiftLeft, BitVec.getLsbD_allOnes]
    have : j - start % 64 < 64 := by omega
    simp only [hj, this, decide_true, Bool.true_and, Bool.and_true]
    rw [← decide_not]
    exact decide_eq_decide.2 Nat.not_lt
  rw [BitVec.getLsbD_and, hmask, a.getLsbD_words _ _ hsize hj, Bool.and_comm]
  congr 1
  exact decide_eq_decide.2 (by omega)

end BitArray

/-- Bit arrays answer for each of their bits, and their search is the bitwise one. -/
instance : LawfulAssignment BitArray where
  isSet_ok a index h := ⟨a.bit index, if_pos h⟩
  firstSet_eq a start stop := by
    show a.firstSet start stop = firstSetBitwise a.size a.isSet start stop
    unfold BitArray.firstSet firstSetBitwise
    by_cases hstart : start < stop
    · by_cases hstop : stop ≤ a.size
      · obtain ⟨r, hr, hfirst⟩ := @isFirst_scanBits a.isSet a.bit start (stop - start)
          fun i hi hi' => if_pos (by omega)
        rw [show start + (stop - start) = stop by omega] at hfirst
        simp [hstart, hstop, Nat.not_le.2 hstart, hr,
          (a.isFirst_firstSetWithin start stop hstart hstop).unique hfirst]
      · simp [hstart, hstop, Nat.not_le.2 hstart]
    · simp [hstart, Nat.not_lt.1 hstart]

end ChoiceTree
