import Mathlib
import ChoiceTree.Fault

/-!
# Computations that may fault, taken apart

A request is a chain of steps each of which may fault. The lemmas here say what
follows from the success of a chain: every step of it succeeded. They are used
in both directions, so each is an equivalence.
-/

namespace ChoiceTree

variable {ε α β : Type}

/-- A chain succeeds exactly if its first step does and the rest does from there. -/
theorem bind_eq_ok {x : Except ε α} {f : α → Except ε β} {b : β} :
    x >>= f = .ok b ↔ ∃ a, x = .ok a ∧ f a = .ok b := by
  cases x with
  | error e => simp [bind, Except.bind]
  | ok a => simp [bind, Except.bind]

@[simp] theorem ok_bind (a : α) (f : α → Except ε β) : Except.ok a >>= f = f a := rfl

theorem map_eq_ok {x : Except ε α} {f : α → β} {b : β} :
    f <$> x = .ok b ↔ ∃ a, x = .ok a ∧ f a = b := by
  cases x with
  | error e => simp [Functor.map, Except.map]
  | ok a => simp [Functor.map, Except.map]

theorem pure_eq_ok {a b : α} : (pure a : Except ε α) = .ok b ↔ a = b := by
  simp [pure, Except.pure]

/-- A traversal succeeds exactly if it does at every element. -/
theorem mapM_eq_ok {f : α → Except ε β} {xs : List α} {ys : List β} :
    xs.mapM f = .ok ys ↔ List.Forall₂ (fun x y => f x = .ok y) xs ys := by
  induction xs generalizing ys with
  | nil => rw [List.mapM_nil, pure_eq_ok, List.forall₂_nil_left_iff, eq_comm]
  | cons x xs ih =>
    rw [List.mapM_cons, bind_eq_ok, List.forall₂_cons_left_iff]
    constructor
    · intro h
      obtain ⟨y, hy, h⟩ := h
      obtain ⟨rest, hrest, h⟩ := bind_eq_ok.mp h
      exact ⟨y, rest, hy, ih.mp hrest, (pure_eq_ok.mp h).symm⟩
    · intro h
      obtain ⟨y, rest, hy, hrest, rfl⟩ := h
      exact ⟨y, hy, bind_eq_ok.mpr ⟨rest, ih.mpr hrest, rfl⟩⟩

/-- A traversal that succeeds at each element succeeds. -/
theorem exists_mapM {f : α → Except ε β} {xs : List α} (h : ∀ x ∈ xs, ∃ y, f x = .ok y) :
    ∃ ys, xs.mapM f = .ok ys := by
  induction xs with
  | nil => exact ⟨[], rfl⟩
  | cons x xs ih =>
    obtain ⟨y, hy⟩ := h x List.mem_cons_self
    obtain ⟨ys, hys⟩ := ih fun x hx => h x (List.mem_cons_of_mem _ hx)
    exact ⟨y :: ys, mapM_eq_ok.mpr (.cons hy (mapM_eq_ok.mp hys))⟩

/-- A traversal that succeeds has collected something for each element. -/
theorem exists_ok_of_mapM {f : α → Except ε β} {xs : List α} {ys : List β}
    (h : xs.mapM f = .ok ys) : ∀ x ∈ xs, ∃ y, f x = .ok y := by
  induction mapM_eq_ok.mp h with
  | nil => exact fun x hx => absurd hx List.not_mem_nil
  | cons hxy hrest ih => exact List.forall_mem_cons.mpr ⟨⟨_, hxy⟩, ih (mapM_eq_ok.mpr hrest)⟩

/-- Whatever a traversal collects comes from one of the elements. -/
theorem exists_of_mem_mapM {f : α → Except ε β} {xs : List α} {ys : List β}
    (h : xs.mapM f = .ok ys) : ∀ y ∈ ys, ∃ x ∈ xs, f x = .ok y := by
  induction mapM_eq_ok.mp h with
  | nil => exact fun y hy => absurd hy List.not_mem_nil
  | cons hxy hrest ih =>
    intro y hy
    rcases List.mem_cons.mp hy with rfl | hy
    · exact ⟨_, List.mem_cons_self, hxy⟩
    · obtain ⟨x, hx, hfx⟩ := ih (mapM_eq_ok.mpr hrest) y hy
      exact ⟨x, List.mem_cons_of_mem _ hx, hfx⟩

/-- Traversals that agree element by element agree. -/
theorem mapM_congr_of_forall₂ {γ : Type} {f : α → Except ε β} {g : γ → Except ε β} {xs : List α}
    {ys : List γ} (h : List.Forall₂ (fun x y => f x = g y) xs ys) : xs.mapM f = ys.mapM g := by
  induction h with
  | nil => rfl
  | cons hxy _ ih => rw [List.mapM_cons, List.mapM_cons, hxy, ih]

/-- Chains whose steps have the same results have the same result, whatever their faults. -/
theorem toOption_bind_congr {x y : Except ε α} {f g : α → Except ε β}
    (h : x.toOption = y.toOption) (hrest : ∀ a, (f a).toOption = (g a).toOption) :
    (x >>= f).toOption = (y >>= g).toOption := by
  cases x with
  | error _ =>
    cases y with
    | error _ => rfl
    | ok _ => cases h
  | ok a =>
    cases y with
    | error _ => cases h
    | ok _ =>
      cases h
      exact hrest a

/-- A test of all elements that never faults is the test of their truth values. -/
theorem allM_eq_ok {f : α → Except ε Bool} {q : α → Bool} {xs : List α}
    (h : ∀ x ∈ xs, f x = .ok (q x)) : xs.allM f = .ok (xs.all q) := by
  induction xs with
  | nil => rfl
  | cons x xs ih =>
    have hx := h x List.mem_cons_self
    have hrest := ih fun y hy => h y (List.mem_cons_of_mem _ hy)
    rw [List.allM, hx, List.all_cons]
    cases hq : q x with
    | true => rw [Bool.true_and]; exact hrest
    | false => rfl

/-- A test of all elements comes out true exactly if it does at every element. -/
theorem allM_eq_true {f : α → Except ε Bool} {xs : List α} :
    xs.allM f = .ok true ↔ ∀ x ∈ xs, f x = .ok true := by
  constructor
  · intro h
    induction xs with
    | nil => simp
    | cons x xs ih =>
      rw [List.allM] at h
      obtain ⟨verdict, hx, h⟩ := bind_eq_ok.mp h
      cases verdict with
      | false => cases h
      | true => exact List.forall_mem_cons.mpr ⟨hx, ih h⟩
  · intro h
    rw [allM_eq_ok h, List.all_eq_true.mpr fun _ _ => rfl]

/-- A test for some element that never faults is the test of their truth values. -/
theorem anyM_eq_ok {f : α → Except ε Bool} {q : α → Bool} {xs : List α}
    (h : ∀ x ∈ xs, f x = .ok (q x)) : xs.anyM f = .ok (xs.any q) := by
  induction xs with
  | nil => rfl
  | cons x xs ih =>
    have hx := h x List.mem_cons_self
    have hrest := ih fun y hy => h y (List.mem_cons_of_mem _ hy)
    rw [List.anyM, hx, List.any_cons]
    cases hq : q x with
    | true => rfl
    | false => rw [Bool.false_or]; exact hrest

end ChoiceTree
