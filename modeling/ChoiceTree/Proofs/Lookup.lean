import Mathlib
import ChoiceTree.Datum
import ChoiceTree.Proofs.Run

/-!
# Validation of values, and their look-up

Values are compared by an equality that is symmetric and transitive, but may tell a value
from itself. A list of values is refused if it is empty or some value equals an earlier
one; otherwise it is a domain, kept as it is. In a domain, whatever is looked up equals one
value at most.

* `Repeats`, `firstRepeat_eq_some`, `firstRepeat_eq_none` — the scan finds the first value
  that equals an earlier one;
* `Domain.ofList_eq_empty`, `Domain.ofList_eq_duplicate`, `Domain.ofList_eq_ok` — what a list
  of values comes to;
* `Select.getElem?_options` — the options are the values in their order;
* `Select.eq_of_beq_value`, `Select.find_eq_ok`, `Select.find_eq_missing` — look-up in a
  select;
* `Select.Made` — selects that are made of values and rebased any number of times;
* `Select.validates_and_finds` — all of it for any list of values.
-/

namespace ChoiceTree

variable {V : Type} [BEq V]

/-! ## The first repeat -/

/-- The value at place `i` equals an earlier one or one listed in `seen`. -/
def Repeats (seen values : List V) (i : Nat) : Prop :=
  ∃ v, values[i]? = some v ∧ ∃ u ∈ seen ++ values.take i, (u == v) = true

/-- It is the first of the values that does. -/
def RepeatsFirst (seen values : List V) (i : Nat) : Prop :=
  Repeats seen values i ∧ ∀ j < i, ¬Repeats seen values j

theorem repeats_zero {seen values : List V} {v : V} :
    Repeats seen (v :: values) 0 ↔ seen.any (· == v) = true := by
  simp [Repeats]

theorem repeats_succ {seen values : List V} {v : V} {i : Nat} :
    Repeats seen (v :: values) (i + 1) ↔ Repeats (seen ++ [v]) values i := by
  simp [Repeats]

/-- The scan stops exactly at the first value that equals an earlier one. -/
theorem firstRepeat_eq_some {seen values : List V} {v : V} :
    firstRepeat seen values = some v ↔ ∃ i, RepeatsFirst seen values i ∧ values[i]? = some v := by
  induction values generalizing seen with
  | nil => simp [firstRepeat]
  | cons w ws ih =>
    rw [firstRepeat]
    split
    · next hrepeats =>
      have hfirst : RepeatsFirst seen (w :: ws) 0 :=
        ⟨repeats_zero.mpr hrepeats, fun j hj => absurd hj (Nat.not_lt_zero j)⟩
      constructor
      · rintro ⟨⟩
        exact ⟨0, hfirst, rfl⟩
      · rintro ⟨i, hi, hv⟩
        -- no later value is the first
        cases i with
        | zero => exact hv
        | succ i => exact absurd hfirst.1 (hi.2 0 (Nat.succ_pos i))
    · next hnew =>
      have hzero : ¬Repeats seen (w :: ws) 0 := mt repeats_zero.mp hnew
      rw [ih]
      constructor
      · rintro ⟨i, ⟨hi, hbefore⟩, hv⟩
        refine ⟨i + 1, ⟨repeats_succ.mpr hi, fun j hj => ?_⟩, hv⟩
        cases j with
        | zero => exact hzero
        | succ j => exact mt repeats_succ.mp (hbefore j (Nat.lt_of_succ_lt_succ hj))
      · rintro ⟨i, ⟨hi, hbefore⟩, hv⟩
        cases i with
        | zero => exact absurd hi hzero
        | succ i =>
          exact ⟨i, ⟨repeats_succ.mp hi, fun j hj =>
            mt repeats_succ.mpr (hbefore (j + 1) (Nat.succ_lt_succ hj))⟩, hv⟩

/-- If any value equals an earlier one, one of them is the first. -/
theorem exists_repeatsFirst {seen values : List V} {i : Nat} (h : Repeats seen values i) :
    ∃ j, RepeatsFirst seen values j := by
  classical
  exact ⟨Nat.find ⟨i, h⟩, Nat.find_spec ⟨i, h⟩, fun _ hj => Nat.find_min ⟨i, h⟩ hj⟩

theorem firstRepeat_eq_none {seen values : List V} :
    firstRepeat seen values = none ↔ ∀ i, ¬Repeats seen values i := by
  constructor
  · intro hnone i hrepeats
    obtain ⟨j, hj⟩ := exists_repeatsFirst hrepeats
    obtain ⟨v, hv, _⟩ := hj.1
    rw [firstRepeat_eq_some.mpr ⟨j, hj, hv⟩] at hnone
    cases hnone
  · intro hall
    by_contra hsome
    obtain ⟨v, hv⟩ := Option.ne_none_iff_exists'.mp hsome
    obtain ⟨i, hi, _⟩ := firstRepeat_eq_some.mp hv
    exact hall i hi.1

/-- Values of which none equals an earlier one do not repeat. -/
theorem not_repeats_of_pairwise {values : List V}
    (h : values.Pairwise fun a b => (a == b) = false) (i : Nat) : ¬Repeats [] values i := by
  rintro ⟨v, hv, u, hu, heq⟩
  obtain ⟨j, hj, rfl⟩ := List.mem_iff_getElem.mp (List.nil_append _ ▸ hu)
  obtain ⟨hi, rfl⟩ := List.getElem?_eq_some_iff.mp hv
  rw [List.length_take] at hj
  rw [List.getElem_take, List.pairwise_iff_getElem.mp h j i (by omega) hi (by omega)] at heq
  cases heq

/-! ## Domains -/

namespace Domain

theorem ofList_eq_empty {values : List V} :
    Domain.ofList values = .error .empty ↔ values = [] := by
  rw [ofList]
  split
  · next hempty => simp [hempty]
  · next hempty => split <;> simp [hempty]

/-- The value that is reported is the first that equals an earlier one. -/
theorem ofList_eq_duplicate {values : List V} {v : V} :
    Domain.ofList values = .error (.duplicate v) ↔
      ∃ i, RepeatsFirst [] values i ∧ values[i]? = some v := by
  rw [← firstRepeat_eq_some, ofList]
  split
  · next hempty => simp [hempty, firstRepeat]
  · split
    · next w hw => simp [hw]
    · next hnone => simp [hnone]

/-- Making a domain looks nothing up. -/
theorem ofList_ne_missing {values : List V} {v : V} {declared : List V} :
    Domain.ofList values ≠ .error (.missing v declared) := by
  rw [ofList]
  split
  · simp
  · split <;> simp

/-- A list is kept as it is if it can be the values of a domain. -/
theorem ofList_eq_ok {values : List V} {d : Domain V} :
    Domain.ofList values = .ok d ↔ d.values = values := by
  constructor
  · intro h
    rw [ofList] at h
    split at h
    · cases h
    · split at h <;> cases h
      rfl
  · rintro rfl
    have hnone : firstRepeat [] d.values = none :=
      firstRepeat_eq_none.mpr (not_repeats_of_pairwise d.distinct)
    rw [ofList, dif_neg d.nonempty]
    split
    · next v hv =>
      rw [hnone] at hv
      cases hv
    · rfl

/-- It can if there are values and none equals an earlier one. -/
theorem exists_ofList {values : List V} (hempty : values ≠ []) (h : ∀ i, ¬Repeats [] values i) :
    ∃ d, Domain.ofList values = .ok d := by
  cases hmade : Domain.ofList values with
  | ok d => exact ⟨d, rfl⟩
  | error cause =>
    cases cause with
    | empty => exact absurd (ofList_eq_empty.mp hmade) hempty
    | duplicate v =>
      obtain ⟨i, hi, _⟩ := ofList_eq_duplicate.mp hmade
      exact absurd hi.1 (h i)
    | missing v declared => exact absurd hmade ofList_ne_missing

end Domain

/-! ## Selects -/

namespace Select

theorem getElem?_options (s : Select V) (i : Nat) :
    s.options[i]? = s.domain.values[i]?.map fun v => ⟨⟨s.ref, i⟩, v⟩ := by
  rw [options, List.getElem?_mapIdx]

theorem ofList_eq_refused {kind : SelectKind} {id : VarId} {name : String} {optional : Bool}
    {parent : Handle} {values : List V} {refusal : EncodingError V} :
    Select.ofList kind id name optional parent values = .ok (.error refusal) ↔
      ∃ cause, Domain.ofList values = .error cause ∧ refusal = .domain name cause := by
  rw [ofList]
  cases Domain.ofList values with
  | error cause => simp [eq_comm]
  | ok domain => simp [map_eq_ok]

variable [PartialEquivBEq V] {s : Select V} {v : V} {o o' : SelectOption V}

/-- At most one option has a value that equals the given one. -/
theorem eq_of_beq_value (ho : o ∈ s.options) (ho' : o' ∈ s.options) (h : (o.value == v) = true)
    (h' : (o'.value == v) = true) : o = o' := by
  obtain ⟨i, hi⟩ := List.mem_iff_getElem?.mp ho
  obtain ⟨j, hj⟩ := List.mem_iff_getElem?.mp ho'
  rw [getElem?_options] at hi hj
  obtain ⟨u, hu, rfl⟩ := Option.map_eq_some_iff.mp hi
  obtain ⟨w, hw, rfl⟩ := Option.map_eq_some_iff.mp hj
  have hplace := Domain.place_unique hu hw (BEq.trans h (BEq.symm h')) (BEq.trans h' (BEq.symm h))
  subst hplace
  cases hu.symm.trans hw
  rfl

/-- Look-up finds the option whose value equals the given one. -/
theorem find_eq_ok : s.find v = .ok o ↔ o ∈ s.options ∧ (o.value == v) = true := by
  rw [find]
  cases hfound : s.options.find? (·.value == v) with
  | none =>
    have hnone := List.find?_eq_none.mp hfound
    constructor
    · intro h
      cases h
    · rintro ⟨ho, h⟩
      exact absurd h (hnone o ho)
  | some found =>
    have hmem := List.mem_of_find?_eq_some hfound
    have hbeq := List.find?_some hfound
    constructor
    · rintro ⟨⟩
      exact ⟨hmem, hbeq⟩
    · rintro ⟨ho, h⟩
      rw [eq_of_beq_value ho hmem h hbeq]

omit [PartialEquivBEq V] in
/-- It fails if there is none, and says what was declared. -/
theorem find_eq_missing (h : ∀ o ∈ s.options, (o.value == v) = false) :
    s.find v = .error (.domain s.name (.missing v s.domain.values)) := by
  have hnone : s.options.find? (·.value == v) = none :=
    List.find?_eq_none.mpr fun o ho => Bool.eq_false_iff.mp (h o ho)
  rw [find, hnone]

/-- A declared value is found at its own place exactly if it equals itself. -/
theorem find_declared {i : Nat} (hv : s.domain.values[i]? = some v) :
    (∃ o, s.find v = .ok o ∧ o.index = i) ↔ (v == v) = true := by
  have hoption : s.options[i]? = some ⟨⟨s.ref, i⟩, v⟩ := by
    rw [getElem?_options, hv, Option.map_some]
  have hmem := List.mem_of_getElem? hoption
  constructor
  · rintro ⟨o, hfound, rfl⟩
    obtain ⟨ho, hbeq⟩ := find_eq_ok.mp hfound
    obtain ⟨_, _, hvalue⟩ := mem_options ho
    cases hvalue.symm.trans hv
    exact hbeq
  · intro hself
    exact ⟨_, find_eq_ok.mpr ⟨hmem, hself⟩, rfl⟩

end Select

/-! ## Every list of values -/

namespace Select

/-- The select is made of the values, and rebased any number of times. -/
inductive Made (values : List V) : Select V → Prop
  | new {kind : SelectKind} {id : VarId} {name : String} {optional : Bool} {parent : Handle}
      {s : Select V} : ofList kind id name optional parent values = .ok (.ok s) → Made values s
  | rebase {s s' : Select V} {id : VarId} {parent : Handle} : Made values s →
      s.rebase id parent = .ok s' → Made values s'

/-- Its values are those it was made of. -/
theorem Made.values_eq {values : List V} {s : Select V} (made : Made values s) :
    s.domain.values = values := by
  induction made with
  | new hmade =>
    obtain ⟨domain, hdomain, hs⟩ := ofList_eq_ok.mp hmade
    obtain ⟨_, rfl⟩ := ofDomain_eq_ok.mp hs
    exact Domain.ofList_eq_ok.mp hdomain
  | rebase _ hrebase ih =>
    obtain ⟨_, rfl⟩ := ofDomain_eq_ok.mp hrebase
    exact ih

/-- What a request to make a select of the values comes to. -/
structure Validates (kind : SelectKind) (id : VarId) (name : String) (optional : Bool)
    (parent : Handle) (values : List V) : Prop where
  empty : ofList kind id name optional parent values = .ok (.error (.domain name .empty)) ↔
    values = []
  /-- The value that is reported is the first that equals an earlier one. -/
  duplicate : ∀ v,
    ofList kind id name optional parent values = .ok (.error (.domain name (.duplicate v))) ↔
      ∃ i, RepeatsFirst [] values i ∧ values[i]? = some v
  exists_duplicate :
    (∃ v, ofList kind id name optional parent values =
      .ok (.error (.domain name (.duplicate v)))) ↔ ∃ i, Repeats [] values i
  /-- Any other list makes the requested select, with an option for every value in its place. -/
  made : values ≠ [] → (∀ i, ¬Repeats [] values i) → optional = true ∨ parent.anchor.InRange →
    ∃ s, ofList kind id name optional parent values = .ok (.ok s) ∧
      (s.kind = kind ∧ s.id = id ∧ s.name = name ∧ s.optional = optional ∧ s.parent = parent) ∧
      s.options.length = values.length ∧
      ∀ i v, values[i]? = some v →
        ∃ o : SelectOption V,
          s.options[i]? = some o ∧ o.index = i ∧ o.value = v ∧ o.owner = s.handle
  /-- The only fault is a mandatory select under a handle without an address. -/
  fault : values ≠ [] → (∀ i, ¬Repeats [] values i) →
    ¬(optional = true ∨ parent.anchor.InRange) →
    ofList kind id name optional parent values = .error .additionOverflow

/-- What the select answers when a value is looked up. -/
structure Finds (values : List V) (s : Select V) : Prop where
  unique : ∀ v, ∀ o ∈ s.options, ∀ o' ∈ s.options, (o.value == v) = true →
    (o'.value == v) = true → o = o'
  found : ∀ v, ∀ o ∈ s.options, (o.value == v) = true → s.find v = .ok o
  missing : ∀ v, (∀ o ∈ s.options, (o.value == v) = false) →
    s.find v = .error (.domain s.name (.missing v values))
  /-- A declared value is found in its own place exactly if it equals itself. -/
  declared : ∀ i v, values[i]? = some v →
    ((∃ o, s.find v = .ok o ∧ o.index = i) ↔ (v == v) = true)

/-- **Values are validated and looked up exactly.** Under any symmetric and transitive
equality, every list of values is refused for being empty, refused for the first of its values
that equals an earlier one, or made into a select with these options. In a select made of the
values and rebased any number of times, what is looked up equals the value of one option at
most, and it is found there or missing. -/
theorem validates_and_finds [PartialEquivBEq V] (values : List V) :
    (∀ kind id name optional parent, Validates kind id name optional parent values) ∧
    ∀ s, Made values s → Finds values s := by
  constructor
  · intro kind id name optional parent
    have hduplicate : ∀ v, ofList kind id name optional parent values =
        .ok (.error (.domain name (.duplicate v))) ↔
          ∃ i, RepeatsFirst [] values i ∧ values[i]? = some v := by
      intro v
      simp [ofList_eq_refused, Domain.ofList_eq_duplicate]
    refine ⟨?empty, hduplicate, ?exists_duplicate, ?made, ?fault⟩
    case empty => simp [ofList_eq_refused, Domain.ofList_eq_empty]
    case exists_duplicate =>
      simp only [hduplicate]
      constructor
      · rintro ⟨v, i, hi, _⟩
        exact ⟨i, hi.1⟩
      · rintro ⟨i, hi⟩
        obtain ⟨j, hj⟩ := exists_repeatsFirst hi
        obtain ⟨v, hv, _⟩ := hj.1
        exact ⟨v, j, hj, hv⟩
    case made =>
      intro hempty hnew hanchored
      obtain ⟨domain, hdomain⟩ := Domain.exists_ofList hempty hnew
      have hvalues := Domain.ofList_eq_ok.mp hdomain
      refine ⟨⟨id, name, parent, kind, optional, domain, hanchored⟩,
        ofList_eq_ok.mpr ⟨domain, hdomain, ofDomain_eq_ok.mpr ⟨hanchored, rfl⟩⟩,
        ⟨rfl, rfl, rfl, rfl, rfl⟩, ?_, ?_⟩
      · rw [length_options, Domain.size, hvalues]
      · intro i v hv
        rw [← hvalues] at hv
        exact ⟨_, by rw [getElem?_options, hv, Option.map_some], rfl, rfl, rfl⟩
    case fault =>
      intro hempty hnew hanchored
      obtain ⟨domain, hdomain⟩ := Domain.exists_ofList hempty hnew
      rw [ofList, hdomain]
      show Except.ok <$> ofDomain kind id name optional parent domain = _
      rw [ofDomain, dif_neg hanchored]
      rfl
  · intro s made
    have hvalues := made.values_eq
    subst hvalues
    exact ⟨fun v o ho o' ho' => eq_of_beq_value ho ho', fun v o ho h => find_eq_ok.mpr ⟨ho, h⟩,
      fun v => find_eq_missing, fun i v => find_declared⟩

end Select

/-! ## A gauge

The readings of a gauge may be no number, and there may be several of these. -/

namespace Gauge

def readings : List Datum :=
  [.number .nan, .number (.zero false), .list [.number .nan], .number .nan]

theorem firstRepeat_readings : firstRepeat [] readings = none := rfl

def gauge (id : VarId) : Select Datum :=
  ⟨id, "gauge", .root, .nominal, false,
    ⟨readings, List.cons_ne_nil _ _, pairwise_of_firstRepeat_eq_none .nil firstRepeat_readings⟩,
    .inr trivial⟩

/-- The readings make a gauge. In a copy of it, no number that is not a number is found, but
either zero is, which could not have been declared again. -/
theorem readings_validated_and_found :
    (∀ i, ¬Repeats [] readings i) ∧
    Select.ofList .nominal ⟨0⟩ "gauge" false .root readings = .ok (.ok (gauge ⟨0⟩)) ∧
    Select.Made readings (gauge ⟨1⟩) ∧
    (gauge ⟨1⟩).find (.number .nan) =
      .error (.domain "gauge" (.missing (.number .nan) readings)) ∧
    (∃ o, (gauge ⟨1⟩).find (.number (.zero true)) = .ok o ∧ o.index = 1) ∧
    Select.ofList .nominal ⟨0⟩ "gauge" false .root (readings ++ [.number (.zero true)]) =
      .ok (.error (.domain "gauge" (.duplicate (.number (.zero true))))) := by
  have hnew : ∀ i, ¬Repeats [] readings i := firstRepeat_eq_none.mp firstRepeat_readings
  have hmade : Select.ofList .nominal ⟨0⟩ "gauge" false .root readings =
      .ok (.ok (gauge ⟨0⟩)) := rfl
  have hrebase : (gauge ⟨0⟩).rebase ⟨1⟩ .root = .ok (gauge ⟨1⟩) := rfl
  have hcopy : Select.Made readings (gauge ⟨1⟩) := .rebase (.new hmade) hrebase
  have hfinds := (Select.validates_and_finds readings).2 _ hcopy
  have hzero : (⟨⟨(gauge ⟨1⟩).ref, 1⟩, .number (.zero false)⟩ : SelectOption Datum) ∈
      (gauge ⟨1⟩).options := .tail _ (.head _)
  have hrepeats : firstRepeat [] (readings ++ [.number (.zero true)]) =
      some (.number (.zero true)) := rfl
  refine ⟨hnew, hmade, hcopy, hfinds.missing _ (by decide),
    ⟨_, hfinds.found _ _ hzero rfl, rfl⟩, ?_⟩
  exact (((Select.validates_and_finds _).1 _ _ _ _ _).duplicate _).mpr
    (firstRepeat_eq_some.mp hrepeats)

end Gauge

end ChoiceTree
