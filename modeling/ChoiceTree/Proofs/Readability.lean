import Mathlib
import ChoiceTree.Constraint

/-!
# The text of a constraint is unambiguous

Constraints are written without any mark of where a part ends, except for the closing
parenthesis of a list. The parts show where they end all the same: a number at the first
character that is no digit, and with it a literal; a list at its parenthesis; and each kind
of constraint begins in its own way. So every part of a text that goes on after it is
determined together with the rest, and a constraint is determined by its text.

* `NoDigit` — what goes on without a digit;
* `Literal.text_append_inj`, `Constraint.listText_append_inj` — literals and lists of them,
  split off from the front of a text;
* `Constraint.text_inj` — by induction on one of two constraints with the same text;
* `Constraint.texts_unambiguous` — constraints and literals.
-/

namespace ChoiceTree

/-! ## Numbers -/

/-- The text does not begin with a digit. -/
def NoDigit (rest : List Char) : Prop := ∀ c ∈ rest.head?, c.isDigit = false

theorem noDigit_nil : NoDigit [] := by
  intro c hc
  cases hc

theorem noDigit_cons {c : Char} (rest : List Char) (h : c.isDigit = false) :
    NoDigit (c :: rest) := by
  rintro c' ⟨⟩
  exact h

/-- The leading digits of a text that begins with a number are those of the number. -/
theorem takeWhile_toDigits {n : Nat} {rest : List Char} (h : NoDigit rest) :
    (Nat.toDigits 10 n ++ rest).takeWhile Char.isDigit = Nat.toDigits 10 n := by
  have hdigits : ∀ c ∈ Nat.toDigits 10 n, c.isDigit = true :=
    fun c hc => Nat.isDigit_of_mem_toDigits (by decide) (by decide) hc
  rw [List.takeWhile_append_of_pos hdigits]
  cases rest with
  | nil => simp
  | cons c rest => simp [h c rfl]

/-- A number and what goes on after it without a digit are determined by the text. -/
theorem toDigits_append_inj {m n : Nat} {rest rest' : List Char} (hrest : NoDigit rest)
    (hrest' : NoDigit rest') (h : Nat.toDigits 10 m ++ rest = Nat.toDigits 10 n ++ rest') :
    m = n ∧ rest = rest' := by
  have hsame : Nat.toDigits 10 m = Nat.toDigits 10 n := by
    rw [← takeWhile_toDigits hrest, h, takeWhile_toDigits hrest']
  have hm : m.repr = n.repr := by
    rw [← String.toList_inj, Nat.toList_repr, Nat.toList_repr, hsame]
  rw [hsame] at h
  exact ⟨Nat.repr_inj.mp hm, List.append_cancel_left h⟩

/-! ## Literals -/

namespace Literal

/-- The characters of a literal: a sign if it is negative, and the number of its bit. -/
theorem toList_text (l : Literal) :
    l.text.toList =
      (if l.isNegative then ['~'] else []) ++ 'x' :: Nat.toDigits 10 l.index := by
  rw [text]
  cases l.isNegative <;> simp

/-- A literal is determined by its sign and its bit. -/
theorem eq_of_index_eq {l m : Literal} (hsign : l.isNegative = m.isNegative)
    (hindex : l.index = m.index) : l = m := by
  have hl := l.dimacs_ne_zero
  have hm := m.dimacs_ne_zero
  have hnegative : l.dimacs < 0 ↔ m.dimacs < 0 := decide_eq_decide.mp hsign
  unfold index at hindex
  apply ext
  omega

/-- A literal and what goes on after it without a digit are determined by the text. -/
theorem text_append_inj {l m : Literal} {rest rest' : List Char} (hrest : NoDigit rest)
    (hrest' : NoDigit rest') (h : l.text.toList ++ rest = m.text.toList ++ rest') :
    l = m ∧ rest = rest' := by
  rw [toList_text, toList_text] at h
  -- a sign on one side only is in the place of the other side's `x`
  cases hl : l.isNegative <;> cases hm : m.isNegative <;> simp [hl, hm] at h
  all_goals
    obtain ⟨hindex, hsame⟩ := toDigits_append_inj hrest hrest' h
    exact ⟨eq_of_index_eq (hl.trans hm.symm) hindex, hsame⟩

theorem text_injective : Function.Injective Literal.text := by
  intro l m h
  have hlists : l.text.toList ++ [] = m.text.toList ++ [] := by rw [h]
  exact (text_append_inj noDigit_nil noDigit_nil hlists).1

/-- A literal begins with its sign or with `x`. -/
theorem exists_text_eq_cons (l : Literal) :
    ∃ c rest, l.text.toList = c :: rest ∧ (c = '~' ∨ c = 'x') := by
  rw [toList_text]
  cases l.isNegative
  · exact ⟨'x', _, rfl, .inr rfl⟩
  · exact ⟨'~', _, rfl, .inl rfl⟩

end Literal

/-! ## Lists of literals -/

namespace Constraint

/-- What follows a literal if the literals `ls` are listed after it and then the list is
closed. -/
def listed (rest : List Char) : List Literal → List Char
  | [] => ')' :: rest
  | l :: ls => ',' :: ' ' :: (l.text.toList ++ listed rest ls)

theorem noDigit_listed (rest : List Char) (ls : List Literal) : NoDigit (listed rest ls) := by
  cases ls with
  | nil => exact noDigit_cons _ rfl
  | cons l ls => exact noDigit_cons _ rfl

theorem listText_cons_append (l : Literal) (ls : List Literal) (rest : List Char) :
    (listText (l :: ls)).toList ++ ')' :: rest = l.text.toList ++ listed rest ls := by
  induction ls generalizing l with
  | nil => simp [listText, listed]
  | cons m ls ih =>
    rw [listed, ← ih m]
    simp [listText]

/-- The literals that follow are determined by the text. -/
theorem listed_inj {ls ms : List Literal} {rest rest' : List Char}
    (h : listed rest ls = listed rest' ms) : ls = ms ∧ rest = rest' := by
  induction ls generalizing ms with
  | nil =>
    cases ms with
    | nil => exact ⟨rfl, (List.cons.inj h).2⟩
    | cons m ms => simp [listed] at h
  | cons l ls ih =>
    cases ms with
    | nil => simp [listed] at h
    | cons m ms =>
      simp only [listed, List.cons.injEq, true_and] at h
      obtain ⟨rfl, hlisted⟩ :=
        Literal.text_append_inj (noDigit_listed rest ls) (noDigit_listed rest' ms) h
      obtain ⟨rfl, hrest⟩ := ih hlisted
      exact ⟨rfl, hrest⟩

/-- Only the empty list is closed at once. -/
theorem closed_ne_text_append (l : Literal) (rest rest' : List Char) :
    ')' :: rest ≠ l.text.toList ++ rest' := by
  obtain ⟨c, more, hc, hfirst⟩ := l.exists_text_eq_cons
  rw [hc]
  rcases hfirst with rfl | rfl <;> simp

/-- A list and what goes on after its parenthesis are determined by the text. -/
theorem listText_append_inj {ls ms : List Literal} {rest rest' : List Char}
    (h : (listText ls).toList ++ ')' :: rest = (listText ms).toList ++ ')' :: rest') :
    ls = ms ∧ rest = rest' := by
  cases ls with
  | nil =>
    cases ms with
    | nil => exact ⟨rfl, by simpa [listText] using h⟩
    | cons m ms =>
      rw [listText_cons_append] at h
      exact absurd h (closed_ne_text_append _ _ _)
  | cons l ls =>
    cases ms with
    | nil =>
      rw [listText_cons_append] at h
      exact absurd h.symm (closed_ne_text_append _ _ _)
    | cons m ms =>
      -- the first literals are like later ones, without what separates these
      rw [listText_cons_append, listText_cons_append] at h
      exact listed_inj (congrArg (',' :: ' ' :: ·) h)

/-! ## Constraints -/

theorem toList_text_disjunction (ls : List Literal) :
    (disjunction ls).text.toList = "Disjunction(".toList ++ ((listText ls).toList ++ [')']) := by
  show ("Disjunction(" ++ listText ls ++ ")").toList = _
  simp

theorem toList_text_cardinality (ls : List Literal) (bound : Nat) :
    (cardinality ls .le bound).text.toList =
      "Cardinality(".toList ++
        ((listText ls).toList ++ ')' :: (" <= ".toList ++ Nat.toDigits 10 bound)) := by
  show ("Cardinality(" ++ listText ls ++ ") " ++ "<=" ++ " " ++ toString bound).toList = _
  simp

theorem toList_text_reified (l : Literal) (inner : Constraint) :
    (reified l inner).text.toList = l.text.toList ++ (" <=> ".toList ++ inner.text.toList) := by
  show (l.text ++ " <=> " ++ inner.text).toList = _
  simp

/-- A reification begins like a literal, with no capital letter. -/
theorem cons_ne_text_reified {c : Char} (hc : c.isUpper = true) (rest : List Char) (l : Literal)
    (inner : Constraint) : c :: rest ≠ (reified l inner).text.toList := by
  obtain ⟨first, more, hfirst, hcases⟩ := l.exists_text_eq_cons
  rw [toList_text_reified, hfirst]
  intro heq
  rw [(List.cons.inj heq).1] at hc
  rcases hcases with rfl | rfl <;> cases hc

/-- A constraint is determined by its text. -/
theorem text_inj {k k' : Constraint} (h : k.text.toList = k'.text.toList) : k = k' := by
  -- the kind of either constraint is told by its first character
  induction k generalizing k' with
  | disjunction ls =>
    rw [toList_text_disjunction] at h
    cases k' with
    | disjunction ms =>
      rw [toList_text_disjunction] at h
      obtain ⟨rfl, _⟩ := listText_append_inj (List.append_cancel_left h)
      rfl
    | cardinality ms relation bound =>
      cases relation
      rw [toList_text_cardinality] at h
      simp at h
    | reified m inner => exact absurd h (cons_ne_text_reified rfl _ _ _)
  | cardinality ls relation bound =>
    cases relation
    rw [toList_text_cardinality] at h
    cases k' with
    | disjunction ms =>
      rw [toList_text_disjunction] at h
      simp at h
    | cardinality ms relation bound' =>
      cases relation
      rw [toList_text_cardinality] at h
      obtain ⟨rfl, hbound⟩ := listText_append_inj (List.append_cancel_left h)
      have hdigits := congrArg (· ++ []) (List.append_cancel_left hbound)
      obtain ⟨rfl, _⟩ := toDigits_append_inj noDigit_nil noDigit_nil hdigits
      rfl
    | reified m inner => exact absurd h (cons_ne_text_reified rfl _ _ _)
  | reified l inner ih =>
    cases k' with
    | disjunction ms =>
      rw [toList_text_disjunction] at h
      exact absurd h.symm (cons_ne_text_reified rfl _ _ _)
    | cardinality ms relation bound =>
      cases relation
      rw [toList_text_cardinality] at h
      exact absurd h.symm (cons_ne_text_reified rfl _ _ _)
    | reified m inner' =>
      rw [toList_text_reified, toList_text_reified] at h
      have hspace : ∀ rest, NoDigit (" <=> ".toList ++ rest) := fun rest => noDigit_cons _ rfl
      obtain ⟨rfl, hrest⟩ := Literal.text_append_inj (hspace _) (hspace _) h
      obtain rfl := ih (List.append_cancel_left hrest)
      rfl

/-- **The text of a constraint is unambiguous**, whatever literals it lists, how often it
lists them, and however deep its equivalences are nested: constraints with the same text are
the same. So are literals. -/
theorem texts_unambiguous :
    Function.Injective Constraint.text ∧ Function.Injective Literal.text :=
  ⟨fun _ _ h => text_inj (congrArg String.toList h), Literal.text_injective⟩

end Constraint

end ChoiceTree
