import Mathlib
import ChoiceTree.Enumeration
import ChoiceTree.Proofs.Completeness

/-!
# Counting solutions

The outcomes of the variables bound the number of solutions of a model: a solution is
determined by one state of each variable. A variable has as many states as outcomes,
since a mandatory select that is absent is counted with one that takes its first
option; so nesting, which rules out combinations of states, never adds any.

* `BitArray.mem_all`, `Model.exists_solutions` — the enumeration lists every solution
  once;
* `Choice.state`, `Variable.states`, `Variable.card_states` — the states of a variable,
  as many as it has outcomes;
* `Run.chosen_iff_of_state_eq`, `Run.eq_of_profileOf_eq` — the states determine the
  solution;
* `Run.consistent_ofProfile` — under parents that are always active, all states go
  together;
* `Run.length_solutions` — the count.
-/

namespace ChoiceTree

/-! ## Enumeration -/

namespace BitArray

@[simp] theorem size_ofMask (size mask : Nat) : (ofMask size mask).size = size := rfl

theorem bit_ofMask {size mask index : Nat} (h : index < size) :
    (ofMask size mask).bit index = mask.testBit index := by
  rw [ofMask, bit_ofFn, decide_eq_true h, Bool.true_and]

/-- The enumeration lists the arrays of its size. -/
theorem mem_all {size : Nat} {a : BitArray} : a ∈ all size ↔ a.size = size := by
  rw [all, List.mem_map]
  constructor
  · rintro ⟨mask, _, rfl⟩
    rfl
  · rintro rfl
    -- the number of an array has its bits
    refine ⟨Nat.ofBits fun i : Fin a.size => a.bit i, ?_, ext_bit rfl fun i hi => ?_⟩
    · exact List.mem_range.mpr (Nat.ofBits_lt_two_pow _)
    · rw [size_ofMask] at hi
      rw [bit_ofMask hi, Nat.testBit_ofBits_lt _ _ hi]

/-- It lists none of them twice. -/
theorem nodup_all (size : Nat) : (all size).Nodup := by
  refine List.Nodup.map_on ?_ List.nodup_range
  intro m hm n hn h
  have hm : m < 2 ^ size := List.mem_range.mp hm
  have hn : n < 2 ^ size := List.mem_range.mp hn
  refine Nat.eq_of_testBit_eq fun i => ?_
  by_cases hi : i < size
  · rw [← bit_ofMask hi, ← bit_ofMask hi, h]
  · have hpow : 2 ^ size ≤ 2 ^ i := Nat.pow_le_pow_right Nat.two_pos (Nat.not_lt.mp hi)
    rw [Nat.testBit_lt_two_pow (by omega), Nat.testBit_lt_two_pow (by omega)]

end BitArray

/-- A model that is decided at every array of its width has exactly the solutions that
are listed, each of them once. -/
theorem Model.exists_solutions {m : Model} {verdict : BitArray → Bool}
    (h : ∀ a : BitArray, a.size = m.width → m.isSatisfied a = .ok (verdict a)) :
    ∃ as, m.solutions = .ok as ∧ as.Nodup ∧
      ∀ a, a ∈ as ↔ a.size = m.width ∧ m.isSatisfied a = .ok true := by
  have hverdicts : m.verdicts = .ok ((BitArray.all m.width).map fun a => (a, verdict a)) := by
    rw [verdicts, mapM_eq_ok, List.forall₂_map_right_iff, List.forall₂_same]
    intro a ha
    rw [h a (BitArray.mem_all.mp ha)]
    rfl
  have hsolutions : m.solutions = .ok ((BitArray.all m.width).filter verdict) := by
    rw [solutions, hverdicts, ok_bind, List.filter_map, List.map_map]
    simp [Function.comp_def, pure, Except.pure]
  refine ⟨_, hsolutions, (BitArray.nodup_all _).filter _, fun a => ?_⟩
  rw [List.mem_filter, BitArray.mem_all]
  refine and_congr_right fun hsize => ?_
  rw [h a hsize, Except.ok.injEq]

variable {V : Type} [BEq V]

/-! ## States of a variable -/

/-- The sets of places that the select may take while it is active. -/
def Select.admitted (s : Select V) : Finset (Finset Nat) :=
  match s.kind with
  | .nominal => (Finset.range s.domain.size).powersetCard 1
  | .multiple => (Finset.range s.domain.size).powerset.erase ∅

namespace Select

theorem mem_admitted {s : Select V} {places : Finset Nat} :
    places ∈ s.admitted ↔ places ⊆ Finset.range s.domain.size ∧ s.Admits places := by
  unfold admitted Admits
  cases s.kind with
  | nominal => exact Finset.mem_powersetCard
  | multiple =>
    simp only [Finset.mem_erase, Finset.mem_powerset, Finset.nonempty_iff_ne_empty, and_comm]

theorem card_admitted (s : Select V) : s.admitted.card + s.optional.toNat = s.outcomes := by
  unfold admitted outcomes
  cases s.kind with
  | nominal => simp
  | multiple =>
    have hempty : ∅ ∈ (Finset.range s.domain.size).powerset := Finset.empty_mem_powerset _
    simp [Finset.card_erase_of_mem hempty, Finset.card_powerset]

/-- Any option may be taken alone. -/
theorem singleton_mem_admitted (s : Select V) {i : Nat} (hi : i < s.domain.size) :
    {i} ∈ s.admitted := by
  refine mem_admitted.mpr ⟨by simpa using hi, ?_⟩
  unfold Admits
  cases s.kind with
  | nominal => exact Finset.card_singleton i
  | multiple => exact Finset.singleton_nonempty i

/-- A select that has nothing else to take may take its first option. -/
theorem first_mem_admitted (s : Select V) : {0} ∈ s.admitted :=
  s.singleton_mem_admitted (List.length_pos_iff.mpr s.domain.nonempty)

end Select

/-- The state of a variable under the choice: nothing if it is absent, otherwise the
places it takes. It does not tell a mandatory select that is absent from one that
takes its first option. -/
def Choice.state (c : Choice) : Variable V → Option (Finset Nat)
  | .root _ => none
  | .flag f => (c.places f.id).map fun _ => ∅
  | .select s => if s.optional then c.places s.id else some ((c.places s.id).getD {0})

namespace Variable

/-- The number of results that the variable decodes to, the one of the root included. -/
def outcomes : Variable V → Nat
  | .root _ => 1
  | .flag f => f.outcomes
  | .select s => s.outcomes

/-- The states that the variable can have. -/
def states : Variable V → Finset (Option (Finset Nat))
  | .root _ => {none}
  | .flag _ => {none, some ∅}
  | .select s => if s.optional then s.admitted.insertNone else s.admitted.map .some

/-- A variable has as many states as outcomes. -/
theorem card_states (v : Variable V) : v.states.card = v.outcomes := by
  cases v with
  | root name => rfl
  | flag f => rfl
  | select s =>
    rw [states, outcomes, ← s.card_admitted]
    cases s.optional with
    | true => simp
    | false => simp

/-- A select takes what it may, and a mandatory one is not counted as absent. -/
theorem mem_states_select {s : Select V} {state : Option (Finset Nat)} :
    state ∈ (select s).states ↔
      (∀ places ∈ state, places ∈ s.admitted) ∧ (s.optional = false → state.isSome = true) := by
  rw [states]
  cases s.optional with
  | true => simp
  | false => cases state <;> simp

/-- A mandatory variable is present in all of its states. -/
theorem isSome_of_mem_states {v : Variable V} {id : VarId} (hid : v.id? = some id)
    (hmandatory : v.optional = false) {state : Option (Finset Nat)} (h : state ∈ v.states) :
    state.isSome = true := by
  cases v with
  | root name => cases hid
  | flag f => cases hmandatory
  | select s => exact (mem_states_select.mp h).2 hmandatory

end Variable

namespace Choice

variable {c c' : Choice}

theorem state_mem_states {v : Variable V} (h : c.Consistent v) : c.state v ∈ v.states := by
  cases v with
  | root name => exact Finset.mem_singleton_self none
  | flag f =>
    rw [state, Variable.states]
    cases c.places f.id with
    | none => simp
    | some places => simp
  | select s =>
    have hadmitted : ∀ places ∈ c.places s.id, places ∈ s.admitted :=
      fun places hplaces => Select.mem_admitted.mpr (h.admitted s places rfl hplaces)
    rw [Variable.mem_states_select, state]
    by_cases hoptional : s.optional = true
    · rw [if_pos hoptional]
      exact ⟨hadmitted, fun hmandatory => absurd hoptional (Bool.eq_false_iff.mp hmandatory)⟩
    · rw [if_neg hoptional]
      refine ⟨?_, fun _ => rfl⟩
      rintro _ ⟨⟩
      cases hplaces : c.places s.id with
      | none => exact s.first_mem_admitted
      | some places => exact hadmitted places hplaces

/-- A choice that gives a variable the places of a state has it in that state. -/
theorem state_eq_of_places_eq {v : Variable V} {id : VarId} (hid : v.id? = some id)
    {state : Option (Finset Nat)} (hstate : state ∈ v.states) (h : c.places id = state) :
    c.state v = state := by
  cases v with
  | root name => cases hid
  | flag f =>
    cases hid
    rw [Choice.state, h]
    rcases Finset.mem_insert.mp hstate with rfl | hpresent
    · rfl
    · rw [Finset.mem_singleton.mp hpresent]
      rfl
  | select s =>
    cases hid
    rw [Choice.state, h]
    by_cases hoptional : s.optional = true
    · rw [if_pos hoptional]
    · have hsome := (Variable.mem_states_select.mp hstate).2 (Bool.eq_false_iff.mpr hoptional)
      obtain ⟨places, rfl⟩ := Option.isSome_iff_exists.mp hsome
      rw [if_neg hoptional]
      rfl

/-- The state of an optional variable says whether it is present. -/
theorem isSome_state {v : Variable V} {id : VarId} (hid : v.id? = some id)
    (hoptional : v.optional = true) : (c.state v).isSome = (c.places id).isSome := by
  cases v with
  | root name => cases hid
  | flag f =>
    cases hid
    rw [state, Option.isSome_map]
  | select s =>
    cases hid
    have hs : s.optional = true := hoptional
    rw [state, if_pos hs]

theorem chosen_handle_congr {v : Variable V} {id : VarId} (hid : v.id? = some id) :
    (c.Chosen v.handle ↔ c'.Chosen v.handle) ↔ (c.places id).isSome = (c'.places id).isSome := by
  rw [chosen_handle hid, chosen_handle hid]
  exact Bool.eq_iff_iff.symm

/-- The state of a flag is whether it is present, that of a select what it takes. -/
theorem state_congr {v : Variable V} {id : VarId} (hid : v.id? = some id)
    (hpresent : (c.places id).isSome = (c'.places id).isSome)
    (hplaces : ∀ s, v = .select s → c.places s.id = c'.places s.id) : c.state v = c'.state v := by
  cases v with
  | root name => cases hid
  | flag f =>
    cases hid
    rw [state, state]
    refine eq_of_isSome_eq (by simpa using hpresent) fun places places' hplaces hplaces' => ?_
    obtain ⟨_, _, rfl⟩ := Option.map_eq_some_iff.mp hplaces
    obtain ⟨_, _, rfl⟩ := Option.map_eq_some_iff.mp hplaces'
    rfl
  | select s => rw [state, state, hplaces s rfl]

/-- Where a select is present under both choices or under none, its state determines the
places it takes. -/
theorem places_eq_of_state_eq {s : Select V} (hstate : c.state (.select s) = c'.state (.select s))
    (hpresent : (c.places s.id).isSome = (c'.places s.id).isSome) :
    c.places s.id = c'.places s.id := by
  rw [state, state] at hstate
  by_cases hoptional : s.optional = true
  · rwa [if_pos hoptional, if_pos hoptional] at hstate
  · rw [if_neg hoptional, if_neg hoptional, Option.some.injEq] at hstate
    refine eq_of_isSome_eq hpresent fun places places' hplaces hplaces' => ?_
    rwa [hplaces, hplaces'] at hstate

end Choice

/-! ## States determine solutions -/

namespace Run

variable {root : String} {t : Transcript V} {b : Builder} {c c' : Choice}

/-- **Consistent choices with the same states choose the same.** -/
theorem chosen_iff_of_state_eq (run : Run root t b)
    (hconsistent : ∀ v ∈ t.created, c.Consistent v)
    (hconsistent' : ∀ v ∈ t.created, c'.Consistent v)
    (hstate : ∀ v ∈ t.created, c.state v = c'.state v) {h : Handle}
    (hknown : Known t.created h) : c.Chosen h ↔ c'.Chosen h := by
  refine run.handle_induction (P := fun h => c.Chosen h ↔ c'.Chosen h) Iff.rfl ?_ ?_ hknown
  · intro v hv parent hparent _ hiff
    obtain ⟨id, _, hid, _, _⟩ := run.exists_reservation hv
    cases hoptional : v.optional with
    | true =>
      rw [Choice.chosen_handle hid, Choice.chosen_handle hid, ← Choice.isSome_state hid hoptional,
        ← Choice.isSome_state hid hoptional, hstate v hv]
    | false =>
      -- the state does not say whether it is present, but its parent does
      have hup := (hconsistent v hv).nested parent hparent
      have hdown := (hconsistent v hv).forced parent hparent hoptional
      have hup' := (hconsistent' v hv).nested parent hparent
      have hdown' := (hconsistent' v hv).forced parent hparent hoptional
      exact ⟨fun h => hdown' (hiff.mp (hup h)), fun h => hdown (hiff.mpr (hup' h))⟩
  · intro s hs o ho hiff
    have hpresent := (Choice.chosen_handle_congr (v := .select s) rfl).mp hiff
    rw [Choice.chosen_option ho, Choice.chosen_option ho,
      Choice.places_eq_of_state_eq (hstate _ hs) hpresent]

/-- They give every variable the same bits. -/
theorem bitOf_eq_of_state_eq (run : Run root t b)
    (hconsistent : ∀ v ∈ t.created, c.Consistent v)
    (hconsistent' : ∀ v ∈ t.created, c'.Consistent v)
    (hstate : ∀ v ∈ t.created, c.state v = c'.state v) {v : Variable V} (hv : v ∈ t.created)
    {i : Nat} (hi : i < v.size) : c.bitOf v i = c'.bitOf v i := by
  obtain ⟨id, _, hid, _, _⟩ := run.exists_reservation hv
  have hpresent := (Choice.chosen_handle_congr hid).mp
    (run.chosen_iff_of_state_eq hconsistent hconsistent' hstate (.handle hv))
  refine Choice.bitOf_congr hid hpresent ?_ hi
  intro s hs
  subst hs
  cases hid
  exact Choice.places_eq_of_state_eq (hstate _ hv) hpresent

end Run

/-! ## All states together -/

namespace Choice

/-- The states of the variables under the choice, in their order. -/
def profile (c : Choice) (vs : List (Variable V)) : Fin vs.length → Option (Finset Nat) :=
  fun i => c.state vs[i]

/-- The choice that gives every variable the places of its state. -/
def ofProfile (vs : List (Variable V)) (states : Fin vs.length → Option (Finset Nat)) :
    Choice where
  places id := ((List.finRange vs.length).find? fun i => vs[i].id? == some id).bind states

end Choice

/-- Every way to give each of the variables one of its states. -/
def profiles (vs : List (Variable V)) : Finset (Fin vs.length → Option (Finset Nat)) :=
  Fintype.piFinset fun i => vs[i].states

theorem card_profiles (vs : List (Variable V)) :
    (profiles vs).card = (vs.map Variable.outcomes).prod := by
  rw [profiles, Fintype.card_piFinset]
  simp only [Variable.card_states]
  exact Fin.prod_univ_fun_getElem vs Variable.outcomes

theorem Choice.profile_mem_profiles {c : Choice} {vs : List (Variable V)}
    (h : ∀ v ∈ vs, c.Consistent v) : c.profile vs ∈ profiles vs :=
  Fintype.mem_piFinset.mpr fun i => state_mem_states (h _ (List.getElem_mem i.isLt))

namespace Run

variable {root : String} {t : Transcript V} {b : Builder}

theorem places_ofProfile (run : Run root t b) (states : Fin t.created.length → Option (Finset Nat))
    (i : Fin t.created.length) {id : VarId} (hid : t.created[i].id? = some id) :
    (Choice.ofProfile t.created states).places id = states i := by
  have hfind : (List.finRange t.created.length).find? (t.created[·].id? == some id) = some i := by
    cases hfound : (List.finRange t.created.length).find? (t.created[·].id? == some id) with
    | none =>
      have hnone := List.find?_eq_none.mp hfound i (List.mem_finRange i)
      rw [hid] at hnone
      exact absurd (beq_self_eq_true _) hnone
    | some j =>
      have hj := List.find?_some hfound
      rw [beq_iff_eq, ← hid] at hj
      have hsame := run.eq_of_id (List.getElem_mem j.isLt) (List.getElem_mem i.isLt) hj
      rw [Fin.ext (run.nodup_created.getElem_inj_iff.mp hsame)]
  show ((List.finRange t.created.length).find? _).bind states = states i
  rw [hfind, Option.bind_some]

variable {states : Fin t.created.length → Option (Finset Nat)}

/-- What anchors at the root is chosen, whatever the states. -/
theorem chosen_of_anchor_root (run : Run root t b) (hstates : states ∈ profiles t.created)
    {h : Handle} (hknown : Known t.created h) (hroot : h.anchor = .root) :
    (Choice.ofProfile t.created states).Chosen h := by
  cases hknown with
  | root => trivial
  | @handle v hv =>
    obtain ⟨id, _, hid, _, _⟩ := run.exists_reservation hv
    obtain ⟨i, hi, rfl⟩ := List.mem_iff_getElem.mp hv
    cases hoptional : t.created[i].optional with
    | true =>
      rw [Variable.anchor_handle_of_optional hid hoptional] at hroot
      cases hroot
    | false =>
      rw [Choice.chosen_handle hid, run.places_ofProfile states ⟨i, hi⟩ hid]
      exact Variable.isSome_of_mem_states hid hoptional (Fintype.mem_piFinset.mp hstates ⟨i, hi⟩)
  | option _ ho =>
    rw [Select.anchor_option ho] at hroot
    cases hroot

/-- **Under parents that are always active, all states go together.** -/
theorem consistent_ofProfile (run : Run root t b) (hstates : states ∈ profiles t.created)
    (flat : ∀ v ∈ t.created, ∀ parent, v.parent = .ok parent → parent.anchor = .root) :
    ∀ v ∈ t.created, (Choice.ofProfile t.created states).Consistent v := by
  intro v hv
  obtain ⟨id, _, hid, _, _⟩ := run.exists_reservation hv
  obtain ⟨i, hi, rfl⟩ := List.mem_iff_getElem.mp hv
  have hstate := Fintype.mem_piFinset.mp hstates ⟨i, hi⟩
  have hplaces := run.places_ofProfile states ⟨i, hi⟩ hid
  refine ⟨?_, ?_, ?_⟩
  · intro s places hs hsome
    have hmem : states ⟨i, hi⟩ ∈ t.created[i].states := hstate
    rw [hs] at hid hmem
    cases hid
    rw [hplaces] at hsome
    exact Select.mem_admitted.mp ((Variable.mem_states_select.mp hmem).1 places hsome)
  · intro parent hparent _
    exact run.chosen_of_anchor_root hstates (run.known_of_parent hv hparent) (flat _ hv _ hparent)
  · intro _ _ hmandatory _
    rw [Choice.chosen_handle hid, hplaces]
    exact Variable.isSome_of_mem_states hid hmandatory hstate

theorem profile_ofProfile (run : Run root t b) (hstates : states ∈ profiles t.created) :
    (Choice.ofProfile t.created states).profile t.created = states := by
  funext i
  obtain ⟨id, _, hid, _, _⟩ := run.exists_reservation (List.getElem_mem i.isLt)
  exact Choice.state_eq_of_places_eq hid (Fintype.mem_piFinset.mp hstates i)
    (run.places_ofProfile states i hid)

/-- Choices that are encoded in the same bits have the same states. -/
theorem profile_eq_of_encoded (run : Run root t b) {c c' : Choice} {p : Nat → Bool}
    (hconsistent : ∀ v ∈ t.created, c.Consistent v)
    (hconsistent' : ∀ v ∈ t.created, c'.Consistent v)
    (hencoded : ∀ v ∈ t.created, c.Encoded b.layout p v)
    (hencoded' : ∀ v ∈ t.created, c'.Encoded b.layout p v) :
    c.profile t.created = c'.profile t.created := by
  funext i
  have hv : t.created[i] ∈ t.created := List.getElem_mem i.isLt
  have hchosen := run.chosen_iff_active hconsistent hencoded (.handle hv)
  rw [← run.chosen_iff_active hconsistent' hencoded' (.handle hv)] at hchosen
  obtain ⟨id, r, hid, hr, _⟩ := run.exists_reservation hv
  have hpresent := (Choice.chosen_handle_congr hid).mp hchosen
  refine Choice.state_congr hid hpresent fun s hs => ?_
  rw [hs] at hid hv
  cases hid
  -- if the select is present, its places are those of the option bits that are set
  refine eq_of_isSome_eq hpresent fun places places' hplaces hplaces' => ?_
  have hrange := ((hconsistent _ hv).admitted s places rfl hplaces).1
  have hrange' := ((hconsistent' _ hv).admitted s places' rfl hplaces').1
  rw [← (hencoded _ hv).placesOn_eq hr hplaces hrange,
    ← (hencoded' _ hv).placesOn_eq hr hplaces' hrange']

/-! ## The count -/

/-- The states that are read off an assignment. -/
def profileOf (t : Transcript V) (b : Builder) (a : BitArray) :
    Fin t.created.length → Option (Finset Nat) :=
  (Choice.read b.layout (Assignment.bit a) t.created).profile t.created

theorem profileOf_mem_profiles (run : Run root t b) {a : BitArray} (hsize : a.size = b.build.width)
    (sat : b.build.isSatisfied a = .ok true) : profileOf t b a ∈ profiles t.created := by
  have wide : b.layout.size ≤ Assignment.size a := Nat.le_of_eq hsize.symm
  exact Choice.profile_mem_profiles (run.consistent_read (run.represented_of_isSatisfied wide sat))

/-- **The states determine the solution.** -/
theorem eq_of_profileOf_eq (run : Run root t b) {a a' : BitArray}
    (hsize : a.size = b.build.width) (hsize' : a'.size = b.build.width)
    (sat : b.build.isSatisfied a = .ok true) (sat' : b.build.isSatisfied a' = .ok true)
    (h : profileOf t b a = profileOf t b a') : a = a' := by
  have wide : b.layout.size ≤ Assignment.size a := Nat.le_of_eq hsize.symm
  have wide' : b.layout.size ≤ Assignment.size a' := Nat.le_of_eq hsize'.symm
  have hrepresented := run.represented_of_isSatisfied wide sat
  have hrepresented' := run.represented_of_isSatisfied wide' sat'
  refine run.eq_of_encoded hsize hsize' (run.encoded_read hrepresented)
    (run.encoded_read hrepresented') fun v hv i hi => ?_
  refine run.bitOf_eq_of_state_eq (run.consistent_read hrepresented)
    (run.consistent_read hrepresented') (fun w hw => ?_) hv hi
  obtain ⟨j, hj, rfl⟩ := List.mem_iff_getElem.mp hw
  exact congrFun h ⟨j, hj⟩

/-- Under parents that are always active, there is a solution for all states. -/
theorem exists_solution_of_profile (run : Run root t b) (plain : t.added = [])
    (flat : ∀ v ∈ t.created, ∀ parent, v.parent = .ok parent → parent.anchor = .root)
    (hstates : states ∈ profiles t.created) :
    ∃ a : BitArray, (a.size = b.build.width ∧ b.build.isSatisfied a = .ok true) ∧
      profileOf t b a = states := by
  have hconsistent := run.consistent_ofProfile hstates flat
  have hencoded := run.encoded_assignment (.ofProfile t.created states)
  have sat := run.isSatisfied_assignment plain hconsistent
  have hread := run.represented_of_isSatisfied (Nat.le_refl _) sat
  refine ⟨_, ⟨rfl, sat⟩, ?_⟩
  exact (run.profile_eq_of_encoded (run.consistent_read hread) hconsistent
    (run.encoded_read hread) hencoded).trans (run.profile_ofProfile hstates)

/-- **The outcomes bound the number of solutions.** Whatever constraints are added over
the bits of the layout, the model has no more solutions than the product of the numbers
of outcomes; and exactly as many if none are added and every parent is always active. -/
theorem length_solutions (run : Run root t b)
    (inside : ∀ c ∈ t.added, ∀ l ∈ c.literals, l.index < b.build.width) :
    ∃ as, b.build.solutions = .ok as ∧ as.Nodup ∧
      (∀ a, a ∈ as ↔ a.size = b.build.width ∧ b.build.isSatisfied a = .ok true) ∧
      as.length ≤ (t.created.map Variable.outcomes).prod ∧
      (t.added = [] →
        (∀ v ∈ t.created, ∀ parent, v.parent = .ok parent → parent.anchor = .root) →
        as.length = (t.created.map Variable.outcomes).prod) := by
  obtain ⟨as, hsolutions, hnodup, hmem⟩ := Model.exists_solutions (m := b.build)
    fun a hsize => run.isSatisfied_eq inside a (Nat.le_of_eq hsize.symm)
  have hsolution : ∀ a, a ∈ as.toFinset ↔
      a.size = b.build.width ∧ b.build.isSatisfied a = .ok true := by
    intro a
    rw [List.mem_toFinset, hmem]
  have hmaps : Set.MapsTo (profileOf t b) as.toFinset (profiles t.created) := by
    intro a ha
    obtain ⟨hsize, sat⟩ := (hsolution a).mp ha
    exact run.profileOf_mem_profiles hsize sat
  have hinj : Set.InjOn (profileOf t b) as.toFinset := by
    intro a ha a' ha' heq
    obtain ⟨hsize, sat⟩ := (hsolution a).mp ha
    obtain ⟨hsize', sat'⟩ := (hsolution a').mp ha'
    exact run.eq_of_profileOf_eq hsize hsize' sat sat' heq
  have hle := Finset.card_le_card_of_injOn (profileOf t b) hmaps hinj
  rw [List.toFinset_card_of_nodup hnodup, card_profiles] at hle
  refine ⟨as, hsolutions, hnodup, hmem, hle, ?_⟩
  intro plain flat
  have hsurj : Set.SurjOn (profileOf t b) as.toFinset (profiles t.created) := by
    intro states hstates
    obtain ⟨a, ha, hprofile⟩ := run.exists_solution_of_profile plain flat hstates
    exact ⟨a, (hsolution a).mpr ha, hprofile⟩
  have hge := Finset.card_le_card_of_surjOn (profileOf t b) hsurj
  rw [List.toFinset_card_of_nodup hnodup, card_profiles] at hge
  exact Nat.le_antisymm hle hge

end Run

/-! ## A meal

Everybody has a main dish with at least one side dish, and possibly a dessert. Nothing
here is ever inactive. -/

namespace Meal

def dish : Select Nat :=
  ⟨⟨0⟩, "dish", .root, .nominal, false, Parcel.size.domain, Parcel.anchored_root⟩

def sides : Select Nat :=
  ⟨⟨1⟩, "sides", dish.handle, .multiple, false, Parcel.extras.domain, .inr trivial⟩

def dessert : Flag Nat := ⟨⟨2⟩, "dessert", sides.handle, 5⟩

def transcript : Transcript Nat :=
  [⟨.select .nominal "dish" false .root [1, 2], .created (.select dish)⟩,
   ⟨.select .multiple "sides" false dish.handle [3, 4], .created (.select sides)⟩,
   ⟨.flag "dessert" 5 sides.handle, .created (.flag dessert)⟩]

/-- The literal of a bit of a meal being set. -/
def literal (index : Fin 5) : Literal :=
  .ofIndex index true (Nat.lt_trans index.isLt (by decide))

def session : Builder where
  root := "meal"
  counter := 3
  layout := Layout.empty |>.extend ⟨0⟩ 2 |>.extend ⟨1⟩ 2 |>.extend ⟨2⟩ 1
  constraints :=
    [.disjunction [literal 0, literal 1],
     .cardinality [literal 0, literal 1] .le 1,
     .disjunction [literal 2, literal 3]]

theorem run : Run "meal" transcript session := by
  have hstart : Run (V := Nat) "meal" [] (.new "meal") := .start
  have hdish := hstart.serve_known (r := .select .nominal "dish" false .root [1, 2]) .root rfl
  have hsides := hdish.serve_known (r := .select .multiple "sides" false dish.handle [3, 4])
    (.handle (v := .select dish) (.head _)) rfl
  exact hsides.serve_known (r := .flag "dessert" 5 sides.handle)
    (.handle (v := .select sides) (.tail _ (.head _))) rfl

/-- There are at most 24 parcels that grant the wish, and exactly 12 meals. -/
theorem count_parcels_and_meals :
    (∀ c ∈ Transcript.added (Parcel.transcript ++ [⟨.addConstraint Parcel.wish, .added⟩]),
      ∀ l ∈ c.literals, l.index < (Parcel.session.addConstraint Parcel.wish).build.width) ∧
    (∃ as, (Parcel.session.addConstraint Parcel.wish).build.solutions = .ok as ∧ as.length ≤ 24) ∧
    (∀ c ∈ transcript.added, ∀ l ∈ c.literals, l.index < session.build.width) ∧
    transcript.added = [] ∧
    (∀ v ∈ transcript.created, ∀ parent, v.parent = .ok parent → parent.anchor = .root) ∧
    ∃ as, session.build.solutions = .ok as ∧ as.length = 12 := by
  have hwish : ∀ c ∈ Transcript.added (Parcel.transcript ++ [⟨.addConstraint Parcel.wish, .added⟩]),
      ∀ l ∈ c.literals, l.index < (Parcel.session.addConstraint Parcel.wish).build.width := by
    decide
  have hinside : ∀ c ∈ transcript.added, ∀ l ∈ c.literals, l.index < session.build.width := by
    decide
  have hflat : ∀ v ∈ transcript.created, ∀ parent, v.parent = .ok parent →
      parent.anchor = .root := by
    have hcreated : transcript.created = [.select dish, .select sides, .flag dessert] := rfl
    rw [hcreated]
    simp only [List.forall_mem_cons, List.not_mem_nil, false_implies, implies_true, and_true]
    refine ⟨?_, ?_, ?_⟩ <;> rintro parent ⟨⟩ <;> rfl
  obtain ⟨parcels, hparcels, _, _, hle, _⟩ := Parcel.run_wish.length_solutions hwish
  obtain ⟨meals, hmeals, _, _, _, heq⟩ := run.length_solutions hinside
  exact ⟨hwish, ⟨parcels, hparcels, hle⟩, hinside, rfl, hflat, meals, hmeals, heq rfl hflat⟩

end Meal

end ChoiceTree
