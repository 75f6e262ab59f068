import ChoiceTree.Assignment

/-!
# Bit arrays

A compact assignment: 64 bits to a word, bit `i` in word `i / 64` at position
`i % 64`. There are exactly as many words as the bits need, and the bits of the
last word past the end are clear, so arrays with the same bits are equal.

The window search goes word by word: it masks the first word, skips the words
that are zero and takes the lowest set bit of the first other one.
-/

namespace ChoiceTree

/-- The bit at `index` of consecutive words, unset past the last one. -/
def wordBit (words : Array (BitVec 64)) (index : Nat) : Bool :=
  (words.getD (index / 64) 0).getLsbD (index % 64)

/-- A fixed number of bits, packed into words. -/
structure BitArray where
  /-- The number of bits. -/
  size : Nat
  words : Array (BitVec 64)
  words_size : words.size = (size + 63) / 64
  clear : ∀ index, size ≤ index → wordBit words index = false
  deriving DecidableEq

namespace BitArray

/-- The array of `size` unset bits. -/
def zeros (size : Nat) : BitArray where
  size := size
  words := Array.replicate ((size + 63) / 64) 0
  words_size := by simp
  clear index _ := by
    simp [wordBit, Array.getD_eq_getD_getElem?, Array.getElem?_replicate]
    split <;> simp

/-- The bit at `index`, unset past the end. -/
def bit (a : BitArray) (index : Nat) : Bool := wordBit a.words index

/-- The word that holds a bit of the array exists. -/
theorem div_lt_words_size (a : BitArray) {index : Nat} (h : index < a.size) :
    index / 64 < a.words.size := by
  have := a.words_size; omega

/-- The bits of words of which one is changed. -/
theorem wordBit_modify (words : Array (BitVec 64)) (f : BitVec 64 → BitVec 64) (k index : Nat)
    (hk : k < words.size) :
    wordBit (words.modify k f) index =
      if index / 64 = k then (f (words.getD k 0)).getLsbD (index % 64)
      else wordBit words index := by
  unfold wordBit
  by_cases h : index / 64 = k
  · subst h
    simp [Array.getD_eq_getD_getElem?, hk, Array.getElem_modify]
  · simp [Array.getD_eq_getD_getElem?, Array.getElem?_modify, h, Ne.symm h]

/-- Changes the word that holds `index` by an `f` that touches that bit only. -/
def update (a : BitArray) (index : Nat) (h : index < a.size) (f : BitVec 64 → BitVec 64)
    (others : ∀ word j, j ≠ index % 64 → (f word).getLsbD j = word.getLsbD j) : BitArray where
  size := a.size
  words := a.words.modify (index / 64) f
  words_size := by simpa using a.words_size
  clear i hi := by
    rw [wordBit_modify _ _ _ _ (a.div_lt_words_size h)]
    split
    · next hword =>
      rw [others _ _ (by omega), ← hword]
      exact a.clear i hi
    · exact a.clear i hi

/-- A power of two has no other bit. -/
theorem getLsbD_twoPow_of_ne {i j : Nat} (h : j ≠ i) : (BitVec.twoPow 64 i).getLsbD j = false := by
  simp [BitVec.getLsbD_twoPow, Ne.symm h]

/-- Changes the bit at `index` by an `f` that touches that bit only: the array that is left,
and the fault if there is no such bit. -/
def change (a : BitArray) (index : Nat) (f : BitVec 64 → BitVec 64)
    (others : ∀ word j, j ≠ index % 64 → (f word).getLsbD j = word.getLsbD j) :
    BitArray × Option Fault :=
  if h : index < a.size then (a.update index h f others, none)
  else (a, some (.bitRange index a.size))

/-- Gives the bit at `index` a new value: the array that is left, and the fault if there is
no such bit. -/
def trySet (a : BitArray) (index : Nat) (value : Bool) : BitArray × Option Fault :=
  let mask := BitVec.twoPow 64 (index % 64)
  a.change index (fun word => if value then word ||| mask else word &&& ~~~mask)
    (by
      intro word j hj
      have hmask : mask.getLsbD j = false := getLsbD_twoPow_of_ne hj
      cases value <;> simp [hmask]
      exact BitVec.lt_of_getLsbD)

/-- Negates the bit at `index`, likewise. -/
def tryFlip (a : BitArray) (index : Nat) : BitArray × Option Fault :=
  let mask := BitVec.twoPow 64 (index % 64)
  a.change index (fun word => word ^^^ mask)
    (by
      intro word j hj
      have hmask : mask.getLsbD j = false := getLsbD_twoPow_of_ne hj
      simp [hmask])

/-- The array that is left, for a caller who does not go on after a fault. -/
def unlessFault : BitArray × Option Fault → Except Fault BitArray
  | (a, none) => .ok a
  | (_, some fault) => .error fault

/-- The array in which the bit at `index` has the new value. -/
def set (a : BitArray) (index : Nat) (value : Bool) : Except Fault BitArray :=
  unlessFault (a.trySet index value)

/-- The array in which the bit at `index` is negated. -/
def flip (a : BitArray) (index : Nat) : Except Fault BitArray := unlessFault (a.tryFlip index)

/-- The array of `size` bits of which exactly the listed ones are set. -/
def ofBits (size : Nat) (bits : List Nat) : Except Fault BitArray :=
  bits.foldlM (fun a index => a.set index true) (zeros size)

/-- Whether the bit at `index` is set. -/
def isSet (a : BitArray) (index : Nat) : Except Fault Bool :=
  if index < a.size then .ok (a.bit index) else .error (.bitRange index a.size)

/-- The number of set bits. -/
def countOnes (a : BitArray) : Nat :=
  a.words.toList.foldr (fun word count => word.cpop.toNat + count) 0

/-- The lowest set bit of `word`, which holds the bits of `[start, stop)` from
word `k` on, or of the words after it; relative to `start`. -/
def scanWords (a : BitArray) (start stop : Nat) (hstop : stop ≤ a.size) (k : Nat)
    (word : BitVec 64) : Option Nat :=
  if word ≠ 0 then
    let index := k * 64 + word.ctz.toNat
    if index < stop then some (index - start) else none
  else if h : stop ≤ (k + 1) * 64 then none
  else
    have : k + 1 < a.words.size := by have := a.words_size; omega
    scanWords a start stop hstop (k + 1) a.words[k + 1]
termination_by stop - k * 64

/-- The lowest set bit of a window that ends inside the array. -/
def firstSetWithin (a : BitArray) (start stop : Nat) (hstart : start < stop)
    (hstop : stop ≤ a.size) : Option Nat :=
  have := a.div_lt_words_size (Nat.lt_of_lt_of_le hstart hstop)
  a.scanWords start stop hstop (start / 64)
    (a.words[start / 64] &&& (BitVec.allOnes 64 <<< (start % 64)))

/-- The lowest set bit of the window `[start, stop)`, relative to `start`. -/
def firstSet (a : BitArray) (start stop : Nat) : Except Fault (Option Nat) :=
  if hstart : start < stop then
    if hstop : stop ≤ a.size then .ok (a.firstSetWithin start stop hstart hstop)
    else .error (.windowRange stop a.size)
  else .ok none

instance : Assignment BitArray where
  size := size
  isSet := isSet
  firstSet := firstSet

/-- The set bits from `next` on, ascending. -/
def onesFrom (a : BitArray) (next : Nat) : List Nat :=
  if h : next < a.size then
    match a.firstSetWithin next a.size h (Nat.le_refl _) with
    | none => []
    | some skip => (next + skip) :: onesFrom a (next + skip + 1)
  else []
termination_by a.size - next

/-- The set bits, ascending. -/
def ones (a : BitArray) : List Nat := a.onesFrom 0

/-- The `width` bits `p 0, p 1, …`, the first of them lowest. -/
def pack (p : Nat → Bool) : (width : Nat) → BitVec width
  | 0 => 0#0
  | width + 1 => BitVec.cons (p width) (pack p width)

@[simp] theorem getLsbD_pack (p : Nat → Bool) (width j : Nat) :
    (pack p width).getLsbD j = (decide (j < width) && p j) := by
  induction width with
  | zero => simp [pack]
  | succ width ih =>
    rw [pack, BitVec.getLsbD_cons, ih]
    by_cases h : j = width
    · simp [h]
    · have : (j < width + 1) ↔ j < width := by omega
      simp [h, this]

/-- The array of `size` bits in which bit `i` is `p i`. -/
def ofFn (size : Nat) (p : Nat → Bool) : BitArray where
  size := size
  words := Array.ofFn fun k : Fin ((size + 63) / 64) =>
    pack (fun j => decide (k * 64 + j < size) && p (k * 64 + j)) 64
  words_size := by simp
  clear index h := by
    unfold wordBit
    by_cases hk : index / 64 < (size + 63) / 64
    · have : ¬(index / 64 * 64 + index % 64 < size) := by omega
      simp [Array.getD_eq_getD_getElem?, hk, this]
    · simp [Array.getD_eq_getD_getElem?, hk]

/-- The array of `size` bits in which bit `i` is bit `i` of the number. -/
def ofMask (size mask : Nat) : BitArray := ofFn size mask.testBit

end BitArray

end ChoiceTree
