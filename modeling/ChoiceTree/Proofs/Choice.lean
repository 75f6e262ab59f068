import Mathlib
import ChoiceTree.Decode
import ChoiceTree.Proofs.Emission

/-!
# Choices

A choice says of every variable whether it is present and, if so, which options
it takes. This module fixes what a choice is about, apart from any assignment:

* `Choice.Chosen`, `Choice.decoded` — what is chosen, and what is to be returned
  for it;
* `Choice.Consistent` — what a choice has to observe at each variable of a tree;
* `Choice.Above`, `Choice.chosen_of_above` — a consistent choice is closed
  towards the root;
* `Select.Returns`, `Select.exists_selection` — what is returned for places that
  a select admits;
* `Select.eq_of_valuesAt_eq`, `Select.eq_of_selection_eq` — the places can be read off
  the returned values, unless some value does not equal itself.
-/

namespace ChoiceTree

variable {V : Type} [BEq V]

/-! ## Selections of admitted places -/

/-- Every value of the domain equals itself. -/
def Domain.Reflexive (d : Domain V) : Prop := ∀ v ∈ d.values, (v == v) = true

/-- With a reflexive equality, every domain is of this kind. -/
theorem Domain.reflexive [ReflBEq V] (d : Domain V) : d.Reflexive := fun _ _ => BEq.rfl

/-- In a domain of values that equal themselves, a value has one place. -/
theorem Domain.Reflexive.eq_of_getElem? {d : Domain V} (h : d.Reflexive) {i j : Nat} {v : V}
    (hi : d.values[i]? = some v) (hj : d.values[j]? = some v) : i = j :=
  have hself : (v == v) = true := h v (List.mem_of_getElem? hi)
  Domain.place_unique hi hj hself hself

namespace Select

/-- What is returned for the places of the chosen options: the value at the only
place, or the values at the places, in the order of the domain. -/
def Returns (s : Select V) (places : Finset Nat) : Selection V → Prop
  | .one v => s.kind = .nominal ∧ ∃ i, places = {i} ∧ s.domain.values[i]? = some v
  | .many values => s.kind = .multiple ∧ values = s.valuesAt places ∧ values ≠ []

/-- The value at one place. -/
theorem valuesAt_singleton {s : Select V} {i : Nat} {v : V} (h : s.domain.values[i]? = some v) :
    s.valuesAt {i} = [v] := by
  obtain ⟨hlt, hv⟩ := List.getElem?_eq_some_iff.mp h
  have hbefore : ∀ j, 0 ≤ j → j < 0 + i → decide (j ∈ ({i} : Finset Nat)) = false := by
    intro j _ hj
    rw [decide_eq_false_iff_not, Finset.mem_singleton]
    omega
  have hafter : ∀ j, i + 1 ≤ j → j < i + 1 + (s.domain.values.drop (i + 1)).length →
      decide (j ∈ ({i} : Finset Nat)) = false := by
    intro j hj _
    rw [decide_eq_false_iff_not, Finset.mem_singleton]
    omega
  rw [valuesAt, valuesWhere_drop hbefore, List.drop_eq_getElem_cons hlt, valuesWhere_cons,
    Nat.zero_add, if_pos (decide_eq_true (Finset.mem_singleton_self i)), hv,
    valuesWhere_eq_nil hafter]

/-- The values at some places are values of the domain, in its order. -/
theorem valuesAt_sublist (s : Select V) (places : Finset Nat) :
    (s.valuesAt places).Sublist s.domain.values := by
  have hfilter := (List.filter_sublist (p := fun entry : V × Nat => decide (entry.2 ∈ places))
    (l := s.domain.values.zipIdx)).map Prod.fst
  rwa [List.zipIdx_map_fst] at hfilter

theorem mem_valuesAt {s : Select V} {places : Finset Nat} {v : V} :
    v ∈ s.valuesAt places ↔ ∃ i, s.domain.values[i]? = some v ∧ i ∈ places := by
  rw [valuesAt, mem_valuesWhere]
  simp only [Nat.zero_add, decide_eq_true_eq]

/-- Something is returned for places that the select admits. -/
theorem exists_selection {s : Select V} {places : Finset Nat}
    (hrange : places ⊆ Finset.range s.domain.size) (hadmits : s.Admits places) :
    ∃ selection, s.selection places = some selection ∧ s.Returns places selection := by
  have hvalue : ∀ i ∈ places, ∃ v, s.domain.values[i]? = some v := by
    intro i hi
    have hlt : i < s.domain.values.length := Finset.mem_range.mp (hrange hi)
    exact ⟨_, List.getElem?_eq_getElem hlt⟩
  rw [selection]
  cases hkind : s.kind with
  | nominal =>
    rw [Admits, hkind] at hadmits
    obtain ⟨i, rfl⟩ := Finset.card_eq_one.mp hadmits
    obtain ⟨v, hv⟩ := hvalue i (Finset.mem_singleton_self i)
    refine ⟨.one v, ?_, hkind, i, rfl, hv⟩
    rw [valuesAt_singleton hv]
    rfl
  | multiple =>
    obtain ⟨i, hi⟩ := hadmits.nonempty
    obtain ⟨v, hv⟩ := hvalue i hi
    have hmem : v ∈ s.valuesAt places := mem_valuesAt.mpr ⟨i, hv, hi⟩
    cases hvalues : s.valuesAt places with
    | nil =>
      rw [hvalues] at hmem
      cases hmem
    | cons w ws => exact ⟨.many (w :: ws), rfl, hkind, hvalues.symm, List.cons_ne_nil w ws⟩

/-- Whatever is returned lists the values at the places. -/
theorem Returns.toList_eq {s : Select V} {places : Finset Nat} {selection : Selection V}
    (h : s.Returns places selection) : selection.toList = s.valuesAt places := by
  cases selection with
  | one v =>
    obtain ⟨_, i, rfl, hv⟩ := h
    exact (valuesAt_singleton hv).symm
  | many values => exact h.2.1

/-- The value of an option is listed exactly if its place is. -/
theorem mem_valuesAt_option {s : Select V} (hreflexive : s.domain.Reflexive)
    {places : Finset Nat} {i : Nat} {v : V} (h : s.domain.values[i]? = some v) :
    v ∈ s.valuesAt places ↔ i ∈ places := by
  rw [mem_valuesAt]
  constructor
  · rintro ⟨j, hj, hmem⟩
    rwa [hreflexive.eq_of_getElem? h hj]
  · intro hmem
    exact ⟨i, h, hmem⟩

/-- The places can be read off the values. -/
theorem eq_of_valuesAt_eq {s : Select V} (hreflexive : s.domain.Reflexive)
    {places places' : Finset Nat} (hrange : places ⊆ Finset.range s.domain.size)
    (hrange' : places' ⊆ Finset.range s.domain.size)
    (h : s.valuesAt places = s.valuesAt places') : places = places' := by
  have hiff : ∀ i < s.domain.size, (i ∈ places ↔ i ∈ places') := by
    intro i hi
    have hlt : i < s.domain.values.length := hi
    have hv : s.domain.values[i]? = some s.domain.values[i] := List.getElem?_eq_getElem hlt
    rw [← mem_valuesAt_option hreflexive hv, h, mem_valuesAt_option hreflexive hv]
  ext i
  constructor
  · intro hi
    exact (hiff i (Finset.mem_range.mp (hrange hi))).mp hi
  · intro hi
    exact (hiff i (Finset.mem_range.mp (hrange' hi))).mpr hi

/-- Admitted places can be read off what is returned for them. -/
theorem eq_of_selection_eq {s : Select V} (hreflexive : s.domain.Reflexive)
    {places places' : Finset Nat} (hrange : places ⊆ Finset.range s.domain.size)
    (hrange' : places' ⊆ Finset.range s.domain.size) (hadmits : s.Admits places)
    (hadmits' : s.Admits places') (h : s.selection places = s.selection places') :
    places = places' := by
  obtain ⟨selection, hselection, hreturns⟩ := exists_selection hrange hadmits
  obtain ⟨selection', hselection', hreturns'⟩ := exists_selection hrange' hadmits'
  rw [hselection, hselection'] at h
  cases h
  exact eq_of_valuesAt_eq hreflexive hrange hrange'
    (hreturns.toList_eq.symm.trans hreturns'.toList_eq)

end Select

/-! ## Choices -/

/-- Options that are both present or both absent are equal if what they hold is. -/
theorem eq_of_isSome_eq {α : Type} {x y : Option α} (h : x.isSome = y.isSome)
    (heq : ∀ a b, x = some a → y = some b → a = b) : x = y := by
  cases x with
  | none => exact (Option.isNone_iff_eq_none.mp (Option.isSome_eq_false_iff.mp h.symm)).symm
  | some a =>
    obtain ⟨b, rfl⟩ := Option.isSome_iff_exists.mp h.symm
    rw [heq a b rfl rfl]

/-- For every identity, nothing if the variable is absent, otherwise the places of
the options it takes. For a flag that is present the places do not matter. -/
structure Choice where
  places : VarId → Option (Finset Nat)

namespace Choice

/-- Whether what the handle stands for is chosen: the root always is, a variable if
it is present, and an option if its owner takes it. -/
def Chosen (c : Choice) : Handle → Prop
  | .root => True
  | .var ref => (c.places ref.id).isSome = true
  | .option ref => ∃ places, c.places ref.owner.id = some places ∧ ref.index ∈ places

/-- What is to be returned for the variable. -/
def decoded (c : Choice) : Variable V → Option (Decoded V)
  | .root _ => some .root
  | .flag f => (c.places f.id).map fun _ => .flag f.payload
  | .select s => ((c.places s.id).bind s.selection).map .select

/-- What a choice has to observe at a variable. -/
structure Consistent (c : Choice) (v : Variable V) : Prop where
  /-- A select that is present takes as many of its options as it may. -/
  admitted : ∀ s places, v = .select s → c.places s.id = some places →
    places ⊆ Finset.range s.domain.size ∧ s.Admits places
  /-- Nothing is chosen without its parent. -/
  nested : ∀ parent, v.parent = .ok parent → c.Chosen v.handle → c.Chosen parent
  /-- What is mandatory is chosen with its parent. -/
  forced : ∀ parent, v.parent = .ok parent → v.optional = false → c.Chosen parent →
    c.Chosen v.handle

theorem chosen_handle {c : Choice} {v : Variable V} {id : VarId} (hid : v.id? = some id) :
    c.Chosen v.handle ↔ (c.places id).isSome = true := by
  obtain ⟨ref, hhandle, rfl⟩ := Variable.handle_eq_var hid
  rw [hhandle]
  rfl

theorem chosen_option {c : Choice} {s : Select V} {o : SelectOption V} (ho : o ∈ s.options) :
    c.Chosen o.handle ↔ ∃ places, c.places s.id = some places ∧ o.ref.index ∈ places := by
  obtain ⟨howner, _, _⟩ := Select.mem_options ho
  have hid : o.ref.owner.id = s.id := by rw [howner, Select.ref, VarRef.id_under]
  rw [← hid]
  rfl

/-- A variable is chosen exactly if something is returned for it. -/
theorem isSome_decoded {c : Choice} {v : Variable V} {id : VarId} (hid : v.id? = some id)
    (h : c.Consistent v) : (c.decoded v).isSome = true ↔ c.Chosen v.handle := by
  rw [chosen_handle hid]
  cases v with
  | root name => cases hid
  | flag f =>
    cases hid
    rw [decoded, Option.isSome_map]
  | select s =>
    cases hid
    rw [decoded, Option.isSome_map]
    cases hplaces : c.places s.id with
    | none => rfl
    | some places =>
      obtain ⟨hrange, hadmits⟩ := h.admitted s places rfl hplaces
      obtain ⟨selection, hselection, _⟩ := Select.exists_selection hrange hadmits
      rw [Option.bind_some, hselection]
      rfl

/-! ## What is above what -/

/-- The first handle is on the way from the second one up to the root. -/
inductive Above (vs : List (Variable V)) : Handle → Handle → Prop
  | parent {v : Variable V} {parent : Handle} : v ∈ vs → v.parent = .ok parent →
      Above vs parent v.handle
  | owner {s : Select V} {o : SelectOption V} : .select s ∈ vs → o ∈ s.options →
      Above vs s.handle o.handle
  | trans {h₁ h₂ h₃ : Handle} : Above vs h₁ h₂ → Above vs h₂ h₃ → Above vs h₁ h₃

/-- Whatever is above something chosen is chosen. -/
theorem chosen_of_above {c : Choice} {vs : List (Variable V)} (h : ∀ v ∈ vs, c.Consistent v)
    {upper lower : Handle} (habove : Above vs upper lower) (hchosen : c.Chosen lower) :
    c.Chosen upper := by
  induction habove with
  | parent hv hparent => exact (h _ hv).nested _ hparent hchosen
  | @owner s o _ ho =>
    obtain ⟨places, hplaces, _⟩ := (chosen_option ho).mp hchosen
    have hid : (Variable.select s).id? = some s.id := rfl
    refine (chosen_handle hid).mpr ?_
    rw [hplaces]
    rfl
  | trans _ _ ihupper ihlower => exact ihupper (ihlower hchosen)

end Choice

end ChoiceTree
