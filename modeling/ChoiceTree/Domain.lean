import ChoiceTree.EncodingError

/-!
# Domains

A domain is the ordered list of values that a select chooses from. It has at
least one value, and no value equals an earlier one. Equality is whatever the
values come with and need not be reflexive: a value that does not equal itself
may be declared more than once, and no lookup finds it.
-/

namespace ChoiceTree

/-- The first of the values that equals an earlier one or one listed in `seen`. -/
def firstRepeat {V : Type} [BEq V] (seen : List V) : List V → Option V
  | [] => none
  | v :: vs => if seen.any (· == v) then some v else firstRepeat (seen ++ [v]) vs

/-- Without a repeat, no value equals an earlier one or one in `seen`. -/
theorem pairwise_of_firstRepeat_eq_none {V : Type} [BEq V] {seen values : List V}
    (hseen : seen.Pairwise fun a b => (a == b) = false)
    (h : firstRepeat seen values = none) :
    (seen ++ values).Pairwise fun a b => (a == b) = false := by
  induction values generalizing seen with
  | nil => simpa using hseen
  | cons v vs ih =>
    simp only [firstRepeat] at h
    split at h
    · exact absurd h (by simp)
    · next hv =>
      have hv : ∀ a ∈ seen, (a == v) = false := by simpa using hv
      have := @ih (seen ++ [v])
        (List.pairwise_append.2 ⟨hseen, by simp, by simpa using hv⟩) h
      simpa using this

/-- An ordered, non-empty list of values of which none equals an earlier one. -/
structure Domain (V : Type) [BEq V] where
  values : List V
  nonempty : values ≠ []
  distinct : values.Pairwise fun a b => (a == b) = false

namespace Domain

variable {V : Type} [BEq V]

/-- The domain of the given values, in their order. -/
def ofList (values : List V) : Except (DomainError V) (Domain V) :=
  if hempty : values = [] then .error .empty
  else
    match hrepeat : firstRepeat [] values with
    | some v => .error (.duplicate v)
    | none => .ok ⟨values, hempty, pairwise_of_firstRepeat_eq_none .nil hrepeat⟩

/-- The number of values. -/
def size (d : Domain V) : Nat := d.values.length

/-- Values of a domain that equal each other have the same place. -/
theorem place_unique {d : Domain V} {i j : Nat} {u v : V} (hi : d.values[i]? = some u)
    (hj : d.values[j]? = some v) (h : (u == v) = true) (h' : (v == u) = true) : i = j := by
  obtain ⟨hilt, rfl⟩ := List.getElem?_eq_some_iff.mp hi
  obtain ⟨hjlt, rfl⟩ := List.getElem?_eq_some_iff.mp hj
  -- the domain only says that no value equals an earlier one
  have hdistinct := List.pairwise_iff_getElem.mp d.distinct
  rcases Nat.lt_trichotomy i j with hlt | heq | hgt
  · rw [hdistinct i j hilt hjlt hlt] at h
    cases h
  · exact heq
  · rw [hdistinct j i hjlt hilt hgt] at h'
    cases h'

end Domain

end ChoiceTree
