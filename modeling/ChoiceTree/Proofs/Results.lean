import Mathlib
import ChoiceTree.Proofs.Extension

/-!
# The results a variable decodes to

Over the solutions of a model without added constraints, a variable decodes to as many
results as it has outcomes, and to one more if it is mandatory and its parent is not
always active: then it is absent in some solution, which its outcomes do not count.

* `Unconditional`, `Grown.unconditional_iff` — what is chosen in every consistent choice
  over a tree;
* `Grown.exists_update`, `Attained`, `Grown.attained` — a consistent choice goes on to a new
  variable, so every variable of a tree is in each of its states in one and every handle is
  chosen in one (`Attained.exists_chosen`), and an optional variable is absent in one
  (`Attained.exists_absent`);
* `Variable.injOn_decoded` — different states decode to different results;
* `Run.decoded_mem_results`, `Run.mem_results_of_mem_states`, `Run.results_eq_states` — the
  results are those of the consistent choices;
* `Run.encard_results` — the count.
-/

namespace ChoiceTree

variable {V : Type} [BEq V]

/-- What the model yields for the variable over all of its solutions. -/
def Model.results (m : Model) (v : Variable V) : Set (Option (Decoded V)) :=
  {value | ∃ a : BitArray, a.size = m.width ∧ m.isSatisfied a = .ok true ∧
    m.valueOf v a = .ok value}

/-- What is chosen in any case: the root, a mandatory variable whose parent is, and the
option of a select that is and has no other. -/
inductive Unconditional (vs : List (Variable V)) : Handle → Prop
  | root : Unconditional vs .root
  | mandatory {v : Variable V} {parent : Handle} : v ∈ vs → v.parent = .ok parent →
      v.optional = false → Unconditional vs parent → Unconditional vs v.handle
  | only {s : Select V} {o : SelectOption V} : .select s ∈ vs → o ∈ s.options →
      s.domain.size = 1 → Unconditional vs s.handle → Unconditional vs o.handle

/-! ## Choices over a growing tree -/

namespace Choice

/-- The choice that is changed at one identity. -/
def update (c : Choice) (id : VarId) (state : Option (Finset Nat)) : Choice :=
  ⟨Function.update c.places id state⟩

@[simp] theorem places_update_self (c : Choice) (id : VarId) (state : Option (Finset Nat)) :
    (c.update id state).places id = state := by
  simp [update]

theorem places_update_of_ne (c : Choice) {id id' : VarId} (state : Option (Finset Nat))
    (h : id' ≠ id) : (c.update id state).places id' = c.places id' := by
  simp [update, h]

variable {c c' : Choice} {v : Variable V} {id : VarId} {parent : Handle}

/-- Choices that agree on the variables of a tree choose the same of its handles. -/
theorem chosen_congr {vs : List (Variable V)}
    (h : ∀ v ∈ vs, ∀ id, v.id? = some id → c.places id = c'.places id) {handle : Handle}
    (hknown : Known vs handle) : c.Chosen handle ↔ c'.Chosen handle := by
  cases hknown with
  | root => exact Iff.rfl
  | @handle v hv =>
    cases v with
    | root name => exact Iff.rfl
    | flag f => exact (chosen_handle_congr rfl).mpr (congrArg Option.isSome (h _ hv _ rfl))
    | select s => exact (chosen_handle_congr rfl).mpr (congrArg Option.isSome (h _ hv _ rfl))
  | option hs ho => rw [chosen_option ho, chosen_option ho, h _ hs _ rfl]

/-- What a choice has to observe at a variable concerns the variable and its parent. -/
theorem Consistent.congr (h : c.Consistent v) (hid : v.id? = some id)
    (hparent : v.parent = .ok parent) (hplaces : c.places id = c'.places id)
    (hchosen : c.Chosen parent ↔ c'.Chosen parent) : c'.Consistent v := by
  have hhandle : c.Chosen v.handle ↔ c'.Chosen v.handle :=
    (chosen_handle_congr hid).mpr (congrArg Option.isSome hplaces)
  refine ⟨?_, ?_, ?_⟩
  · rintro s places rfl hsome
    cases hid
    exact h.admitted s places rfl (hplaces.trans hsome)
  · intro parent' hparent' hown
    cases hparent.symm.trans hparent'
    exact hchosen.mp (h.nested parent hparent (hhandle.mpr hown))
  · intro parent' hparent' hmandatory hup
    cases hparent.symm.trans hparent'
    exact hhandle.mp (h.forced parent hparent hmandatory (hchosen.mpr hup))

/-- A variable may be in any state that its parent leaves to it. -/
theorem consistent_of_mem_statesUnder (hid : v.id? = some id) (hparent : v.parent = .ok parent)
    {active : Bool} (hactive : active = true ↔ c.Chosen parent)
    (hstate : c.places id ∈ v.statesUnder active) : c.Consistent v := by
  refine ⟨?_, ?_, ?_⟩
  · rintro s places rfl hsome
    cases hid
    rw [hsome] at hstate
    exact Variable.admits_of_mem_statesUnder hstate
  · intro parent' hparent' hown
    cases hparent.symm.trans hparent'
    obtain ⟨places, hsome⟩ := Option.isSome_iff_exists.mp ((chosen_handle hid).mp hown)
    rw [hsome] at hstate
    exact hactive.mp (Variable.mem_states_of_statesUnder hstate).1
  · intro parent' hparent' hmandatory hup
    cases hparent.symm.trans hparent'
    rw [chosen_handle hid, Variable.isSome_of_mem_statesUnder hid hmandatory hstate]
    exact hactive.mpr hup

end Choice

namespace Variable

/-- A select may take any single one of its options. -/
theorem singleton_mem_states {s : Select V} {i : Nat} (hi : i < s.domain.size) :
    some {i} ∈ (select s).states :=
  mem_states_select.mpr ⟨by simpa using s.singleton_mem_admitted hi, fun _ => rfl⟩

/-- A variable may be present. -/
theorem exists_some_mem_states {v : Variable V} {id : VarId} (hid : v.id? = some id) :
    ∃ places, some places ∈ v.states := by
  cases v with
  | root name => cases hid
  | flag f => exact ⟨∅, by simp [states]⟩
  | select s => exact ⟨{0}, singleton_mem_states (List.length_pos_iff.mpr s.domain.nonempty)⟩

/-- An optional variable may be absent. -/
theorem none_mem_states {v : Variable V} (hoptional : v.optional = true) : none ∈ v.states := by
  cases v with
  | root name => cases hoptional
  | flag f => simp [states]
  | select s =>
    have hs : s.optional = true := hoptional
    refine mem_states_select.mpr ⟨?_, fun hmandatory => ?_⟩
    · rintro places ⟨⟩
    · rw [hs] at hmandatory
      cases hmandatory

end Variable

namespace Grown

variable {vs : List (Variable V)}

/-- **A consistent choice goes on to a new variable** in any state that the parent leaves
to it, and what it says of the others does not change. -/
theorem consistent_update (grown : Grown vs) {v : Variable V} {id : VarId} {parent : Handle}
    (hfresh : v.id? ∉ vs.map Variable.id?) (hid : v.id? = some id)
    (hparent : v.parent = .ok parent) (hknown : Known vs parent) {c : Choice}
    (hconsistent : ∀ w ∈ vs, c.Consistent w) {active : Bool}
    (hactive : active = true ↔ c.Chosen parent) {state : Option (Finset Nat)}
    (hstate : state ∈ v.statesUnder active) :
    (∀ w ∈ vs ++ [v], (c.update id state).Consistent w) ∧
      ∀ w ∈ vs, ∀ id', w.id? = some id' → c.places id' = (c.update id state).places id' := by
  have hsame : ∀ w ∈ vs, ∀ id', w.id? = some id' →
      c.places id' = (c.update id state).places id' := by
    intro w hw id' hid'
    refine (c.places_update_of_ne state ?_).symm
    rintro rfl
    exact hfresh (hid.trans hid'.symm ▸ List.mem_map_of_mem hw)
  refine ⟨?_, hsame⟩
  intro w hw
  rcases List.mem_append.mp hw with hold | hnew
  · obtain ⟨parent', hparent', hknown'⟩ := grown.parent_known hold
    obtain ⟨id', hid'⟩ := Variable.exists_id hparent'
    exact (hconsistent w hold).congr hid' hparent' (hsame w hold id' hid')
      (Choice.chosen_congr hsame hknown')
  · cases List.mem_singleton.mp hnew
    refine Choice.consistent_of_mem_statesUnder hid hparent
      (hactive.trans (Choice.chosen_congr hsame hknown)) ?_
    rwa [Choice.places_update_self]

/-- A consistent choice goes on to a new variable in one way or the other, and in all of
its states if the parent is chosen. -/
theorem exists_update (grown : Grown vs) {v : Variable V} {id : VarId} {parent : Handle}
    (hfresh : v.id? ∉ vs.map Variable.id?) (hid : v.id? = some id)
    (hparent : v.parent = .ok parent) (hknown : Known vs parent) {c : Choice}
    (hconsistent : ∀ w ∈ vs, c.Consistent w) :
    (∃ c' : Choice, (∀ w ∈ vs ++ [v], c'.Consistent w) ∧
      ∀ w ∈ vs, ∀ id', w.id? = some id' → c.places id' = c'.places id') ∧
    (c.Chosen parent → ∀ state ∈ v.states,
      ∃ c' : Choice, (∀ w ∈ vs ++ [v], c'.Consistent w) ∧ c'.places id = state) := by
  constructor
  · by_cases hchosen : c.Chosen parent
    · obtain ⟨places, hplaces⟩ := Variable.exists_some_mem_states hid
      exact ⟨_, grown.consistent_update hfresh hid hparent hknown hconsistent
        (iff_of_true rfl hchosen) hplaces⟩
    · exact ⟨_, grown.consistent_update hfresh hid hparent hknown hconsistent
        (iff_of_false Bool.false_ne_true hchosen) (Finset.mem_singleton_self none)⟩
  · intro hchosen state hstate
    have hupdate := grown.consistent_update hfresh hid hparent hknown hconsistent
      (iff_of_true rfl hchosen) hstate
    exact ⟨_, hupdate.1, c.places_update_self id state⟩

end Grown

/-! ## All states are attained -/

/-- There are consistent choices over the variables, and each variable is in each of its
states in some of them. -/
structure Attained (vs : List (Variable V)) : Prop where
  exists_consistent : ∃ c : Choice, ∀ w ∈ vs, c.Consistent w
  exists_state : ∀ v ∈ vs, ∀ id, v.id? = some id → ∀ state ∈ v.states,
    ∃ c : Choice, (∀ w ∈ vs, c.Consistent w) ∧ c.places id = state

/-- Then every handle of the tree is chosen in some of them. -/
theorem Attained.exists_chosen {vs : List (Variable V)} (attained : Attained vs)
    (grown : Grown vs) {h : Handle} (hknown : Known vs h) :
    ∃ c : Choice, (∀ w ∈ vs, c.Consistent w) ∧ c.Chosen h := by
  cases hknown with
  | root =>
    obtain ⟨c, hconsistent⟩ := attained.exists_consistent
    exact ⟨c, hconsistent, trivial⟩
  | @handle v hv =>
    obtain ⟨parent, hparent, _⟩ := grown.parent_known hv
    obtain ⟨id, hid⟩ := Variable.exists_id hparent
    obtain ⟨places, hplaces⟩ := Variable.exists_some_mem_states hid
    obtain ⟨c, hconsistent, hstate⟩ := attained.exists_state v hv id hid _ hplaces
    exact ⟨c, hconsistent, (Choice.chosen_handle hid).mpr (by rw [hstate, Option.isSome_some])⟩
  | @option s o hs ho =>
    obtain ⟨_, hlt, _⟩ := Select.mem_options ho
    obtain ⟨c, hconsistent, hstate⟩ :=
      attained.exists_state _ hs s.id rfl _ (Variable.singleton_mem_states hlt)
    exact ⟨c, hconsistent, (Choice.chosen_option ho).mpr ⟨_, hstate, Finset.mem_singleton_self _⟩⟩

/-- And an optional variable is left out by some of them. -/
theorem Attained.exists_absent {vs : List (Variable V)} (attained : Attained vs) {v : Variable V}
    (hv : v ∈ vs) {id : VarId} (hid : v.id? = some id) (hoptional : v.optional = true) :
    ∃ c : Choice, (∀ w ∈ vs, c.Consistent w) ∧ ¬c.Chosen v.handle := by
  obtain ⟨c, hconsistent, hplaces⟩ :=
    attained.exists_state v hv id hid none (Variable.none_mem_states hoptional)
  refine ⟨c, hconsistent, ?_⟩
  rw [Choice.chosen_handle hid, hplaces]
  exact Bool.false_ne_true

/-- **Every variable of a tree is in each of its states in some consistent choice.** -/
theorem Grown.attained {vs : List (Variable V)} (grown : Grown vs)
    (hids : (vs.map Variable.id?).Nodup) : Attained vs := by
  induction grown with
  | nil => exact ⟨⟨.always none, nofun⟩, nofun⟩
  | @create vs new parent grown hparent hknown ih =>
    rw [List.map_append, List.map_singleton, ← List.concat_eq_append, List.nodup_concat] at hids
    obtain ⟨hfresh, hids⟩ := hids
    obtain ⟨newId, hnewId⟩ := Variable.exists_id hparent
    have attained := ih hids
    have hupdate := fun {c : Choice} => grown.exists_update hfresh hnewId hparent hknown (c := c)
    refine ⟨?_, ?_⟩
    · obtain ⟨c, hconsistent⟩ := attained.exists_consistent
      obtain ⟨c', hconsistent', _⟩ := (hupdate hconsistent).1
      exact ⟨c', hconsistent'⟩
    · intro v hv id hid state hstate
      rcases List.mem_append.mp hv with hold | hnew
      · obtain ⟨c, hconsistent, hplaces⟩ := attained.exists_state v hold id hid state hstate
        obtain ⟨c', hconsistent', hsame⟩ := (hupdate hconsistent).1
        exact ⟨c', hconsistent', (hsame v hold id hid).symm.trans hplaces⟩
      · -- some choice takes its parent, which leaves it all of its states
        cases List.mem_singleton.mp hnew
        cases hnewId.symm.trans hid
        obtain ⟨c, hconsistent, hchosen⟩ := attained.exists_chosen grown hknown
        exact (hupdate hconsistent).2 hchosen state hstate

/-! ## What is chosen in any case -/

namespace Unconditional

variable {vs : List (Variable V)} {h : Handle}

/-- What is chosen in any case is chosen in every consistent choice. -/
theorem chosen (unconditional : Unconditional vs h) {c : Choice}
    (hconsistent : ∀ w ∈ vs, c.Consistent w) : c.Chosen h := by
  induction unconditional with
  | root => trivial
  | mandatory hv hparent hmandatory _ ih => exact (hconsistent _ hv).forced _ hparent hmandatory ih
  | @only s o hs ho hsize _ ih =>
    -- the select takes some option, and there is no other
    obtain ⟨places, hplaces⟩ :=
      Option.isSome_iff_exists.mp ((Choice.chosen_handle (v := .select s) rfl).mp ih)
    obtain ⟨hrange, hadmits⟩ := (hconsistent _ hs).admitted s places rfl hplaces
    obtain ⟨i, hi⟩ := hadmits.nonempty
    obtain ⟨_, hindex, _⟩ := Select.mem_options ho
    have hlt := Finset.mem_range.mp (hrange hi)
    have hsame : o.ref.index = i := by omega
    exact (Choice.chosen_option ho).mpr ⟨places, hplaces, hsame ▸ hi⟩

end Unconditional

namespace Grown

variable {vs : List (Variable V)}

/-- What is not chosen in any case is left out by some consistent choice. -/
theorem exists_not_chosen (grown : Grown vs) (hids : (vs.map Variable.id?).Nodup) {h : Handle}
    (hknown : Known vs h) (hsometimes : ¬Unconditional vs h) :
    ∃ c : Choice, (∀ w ∈ vs, c.Consistent w) ∧ ¬c.Chosen h := by
  have attained := grown.attained hids
  refine grown.handle_induction (P := fun h => ¬Unconditional vs h →
    ∃ c : Choice, (∀ w ∈ vs, c.Consistent w) ∧ ¬c.Chosen h) ?_ ?_ ?_ hknown hsometimes
  · intro hsometimes
    exact absurd .root hsometimes
  · intro v hv parent hparent _ ih hsometimes
    cases hoptional : v.optional with
    | true =>
      obtain ⟨id, hid⟩ := Variable.exists_id hparent
      exact attained.exists_absent hv hid hoptional
    | false =>
      obtain ⟨c, hconsistent, hidle⟩ := ih fun hparent' =>
        hsometimes (.mandatory hv hparent hoptional hparent')
      exact ⟨c, hconsistent, fun hchosen =>
        hidle ((hconsistent v hv).nested parent hparent hchosen)⟩
  · intro s hs o ho ih hsometimes
    obtain ⟨_, hlt, _⟩ := Select.mem_options ho
    by_cases hsize : s.domain.size = 1
    · obtain ⟨c, hconsistent, hidle⟩ := ih fun hs' => hsometimes (.only hs ho hsize hs')
      exact ⟨c, hconsistent, fun hchosen =>
        hidle (Choice.chosen_of_above hconsistent (.owner hs ho) hchosen)⟩
    · -- the select may take another option instead
      obtain ⟨i, hi, hne⟩ : ∃ i < s.domain.size, o.ref.index ≠ i := by
        by_cases hzero : o.ref.index = 0
        · exact ⟨1, by omega, by omega⟩
        · exact ⟨0, by omega, hzero⟩
      obtain ⟨c, hconsistent, hplaces⟩ :=
        attained.exists_state _ hs s.id rfl _ (Variable.singleton_mem_states hi)
      refine ⟨c, hconsistent, fun hchosen => ?_⟩
      obtain ⟨places, hplaces', hmem⟩ := (Choice.chosen_option ho).mp hchosen
      cases hplaces.symm.trans hplaces'
      exact hne (Finset.mem_singleton.mp hmem)

/-- **What is chosen in any case** is what every consistent choice over the tree takes. -/
theorem unconditional_iff (grown : Grown vs) (hids : (vs.map Variable.id?).Nodup) {h : Handle}
    (hknown : Known vs h) :
    Unconditional vs h ↔ ∀ c : Choice, (∀ w ∈ vs, c.Consistent w) → c.Chosen h := by
  constructor
  · intro unconditional c hconsistent
    exact unconditional.chosen hconsistent
  · intro hall
    by_contra hsometimes
    obtain ⟨c, hconsistent, hidle⟩ := grown.exists_not_chosen hids hknown hsometimes
    exact hidle (hall c hconsistent)

/-- What anchors at the root is chosen in any case. -/
theorem unconditional_of_anchor_root (grown : Grown vs) {h : Handle} (hknown : Known vs h)
    (hroot : h.anchor = .root) : Unconditional vs h := by
  refine grown.handle_induction (P := fun h => h.anchor = .root → Unconditional vs h)
    (fun _ => .root) ?_ ?_ hknown hroot
  · intro v hv parent hparent _ ih hroot
    cases hoptional : v.optional with
    | true =>
      obtain ⟨id, hid⟩ := Variable.exists_id hparent
      rw [Variable.anchor_handle_of_optional hid hoptional] at hroot
      cases hroot
    | false =>
      rw [Variable.anchor_handle_of_mandatory hparent hoptional] at hroot
      exact .mandatory hv hparent hoptional (ih hroot)
  · intro s _ o ho _ hroot
    rw [Select.anchor_option ho] at hroot
    cases hroot

end Grown

/-! ## Results of states -/

/-- What is returned for a variable depends on what is said of it. -/
theorem Choice.decoded_eq {c : Choice} {v : Variable V} {id : VarId} (hid : v.id? = some id) :
    c.decoded v = (Choice.always (c.places id)).decoded v := by
  cases v with
  | root name => cases hid
  | flag f => cases hid; rfl
  | select s => cases hid; rfl

/-- Something is returned for a select in any state but its absence. -/
theorem Choice.isSome_decoded_always {s : Select V} {state : Option (Finset Nat)}
    (hadmitted : ∀ places ∈ state, places ∈ s.admitted) :
    ((always state).decoded (.select s)).isSome = state.isSome := by
  cases state with
  | none => rfl
  | some places =>
    obtain ⟨hrange, hadmits⟩ := Select.mem_admitted.mp (hadmitted places rfl)
    obtain ⟨selection, hselection, _⟩ := Select.exists_selection hrange hadmits
    simp [decoded, always, hselection]

/-- **Different states decode to different results**, all of them different from that of
absence. -/
theorem Variable.injOn_decoded {v : Variable V} {id : VarId} (hid : v.id? = some id)
    (hreflexive : ∀ s, v = .select s → s.domain.Reflexive) :
    Set.InjOn (fun state => (Choice.always state).decoded v) (insert none v.states) := by
  intro state hstate state' hstate' (heq : (Choice.always state).decoded v = _)
  cases v with
  | root name => cases hid
  | flag f =>
    simp only [states, Finset.coe_insert, Finset.coe_singleton, Set.insert_idem,
      Set.mem_insert_iff, Set.mem_singleton_iff] at hstate hstate'
    rcases hstate with rfl | rfl <;> rcases hstate' with rfl | rfl
    · rfl
    · cases heq
    · cases heq
    · rfl
  | select s =>
    have hadmitted : ∀ {state}, state ∈ insert none (↑(select s).states : Set _) →
        ∀ places ∈ state, places ∈ s.admitted := by
      rintro state (rfl | hmem)
      · rintro places ⟨⟩
      · exact (mem_states_select.mp hmem).1
    refine eq_of_isSome_eq ?_ fun places places' hplaces hplaces' => ?_
    · rw [← Choice.isSome_decoded_always (hadmitted hstate), heq,
        Choice.isSome_decoded_always (hadmitted hstate')]
    · subst hplaces hplaces'
      obtain ⟨hrange, hadmits⟩ := Select.mem_admitted.mp (hadmitted hstate places rfl)
      obtain ⟨hrange', hadmits'⟩ := Select.mem_admitted.mp (hadmitted hstate' places' rfl)
      have hselection := Option.map_injective (fun _ _ h => Decoded.select.inj h) heq
      exact Select.eq_of_selection_eq (hreflexive s rfl) hrange hrange' hadmits hadmits' hselection

/-! ## Results of a model -/

namespace Run

variable {root : String} {t : Transcript V} {b : Builder}

/-- The variables of a run have identities of their own. -/
theorem nodup_ids (run : Run root t b) : (t.created.map Variable.id?).Nodup :=
  run.nodup_created.map_on fun _ hv _ hw h => run.eq_of_id hv hw h

/-- An optional variable is not chosen in any case. -/
theorem not_unconditional (run : Run root t b) {v : Variable V} (hv : v ∈ t.created)
    (hoptional : v.optional = true) : ¬Unconditional t.created v.handle := by
  intro unconditional
  obtain ⟨parent, hparent, _⟩ := run.parent_known hv
  obtain ⟨id, hid⟩ := Variable.exists_id hparent
  obtain ⟨c, hconsistent, hidle⟩ :=
    (run.grown.attained run.nodup_ids).exists_absent hv hid hoptional
  exact hidle (unconditional.chosen hconsistent)

/-- Every solution decodes to something. -/
theorem exists_valueOf (run : Run root t b) {a : BitArray} (hsize : a.size = b.build.width)
    (sat : b.build.isSatisfied a = .ok true) {v : Variable V} (hv : v ∈ t.created) :
    ∃ value, b.build.valueOf v a = .ok value := by
  have wide : b.layout.size ≤ Assignment.size a := Nat.le_of_eq hsize.symm
  have hrepresented := run.represented_of_isSatisfied wide sat
  exact ⟨_, run.valueOf_eq wide (run.consistent_read hrepresented)
    (run.encoded_read hrepresented) v hv⟩

/-- The state of a variable in a consistent choice is a result of the model, if no
constraints are added. -/
theorem decoded_mem_results (run : Run root t b) (plain : t.added = []) {c : Choice}
    (hconsistent : ∀ w ∈ t.created, c.Consistent w) {v : Variable V} (hv : v ∈ t.created)
    {id : VarId} (hid : v.id? = some id) :
    (Choice.always (c.places id)).decoded v ∈ b.build.results v := by
  refine ⟨c.assignment b.layout t.created, rfl, run.isSatisfied_assignment plain hconsistent, ?_⟩
  rw [← Choice.decoded_eq hid]
  exact run.valueOf_eq (Nat.le_refl _) hconsistent (run.encoded_assignment c) v hv

/-- Every state of a variable is attained in some solution. -/
theorem mem_results_of_mem_states (run : Run root t b) (plain : t.added = []) {v : Variable V}
    (hv : v ∈ t.created) {id : VarId} (hid : v.id? = some id) {state : Option (Finset Nat)}
    (hstate : state ∈ v.states) : (Choice.always state).decoded v ∈ b.build.results v := by
  obtain ⟨c, hconsistent, rfl⟩ :=
    (run.grown.attained run.nodup_ids).exists_state v hv id hid state hstate
  exact run.decoded_mem_results plain hconsistent hv hid

/-- A result is that of a state which the parent leaves to the variable; the parent is
inactive only in some consistent choice that leaves it out. -/
theorem exists_state_of_mem_results (run : Run root t b) {v : Variable V} (hv : v ∈ t.created)
    {id : VarId} (hid : v.id? = some id) {parent : Handle} (hparent : v.parent = .ok parent)
    {value : Option (Decoded V)} (hvalue : value ∈ b.build.results v) :
    ∃ active, ∃ state ∈ v.statesUnder active, value = (Choice.always state).decoded v ∧
      (Unconditional t.created parent → active = true) := by
  obtain ⟨a, hsize, sat, hvalueOf⟩ := hvalue
  have wide : b.layout.size ≤ Assignment.size a := Nat.le_of_eq hsize.symm
  have hrepresented := run.represented_of_isSatisfied wide sat
  have hconsistent := run.consistent_read hrepresented
  have hread := run.valueOf_eq wide hconsistent (run.encoded_read hrepresented) v hv
  obtain ⟨id', r, hid', hr, _⟩ := run.exists_reservation hv
  cases hid.symm.trans hid'
  refine ⟨_, _, (hrepresented v hv).read_mem_statesUnder hid hr hparent, ?_, ?_⟩
  · rw [← run.places_read hv hid, ← Choice.decoded_eq hid]
    exact Except.ok.inj (hvalueOf.symm.trans hread)
  · intro unconditional
    exact (run.chosen_read_iff hrepresented (run.known_of_parent hv hparent)).mp
      (unconditional.chosen hconsistent)

/-- Where the variable may be absent by itself or its parent is always there, the results are
those of the states of the variable. -/
theorem results_eq_states (run : Run root t b) (plain : t.added = []) {v : Variable V}
    (hv : v ∈ t.created) {parent : Handle} (hparent : v.parent = .ok parent)
    (h : v.optional = true ∨ Unconditional t.created parent) :
    b.build.results v = (fun state => (Choice.always state).decoded v) '' v.states := by
  obtain ⟨id, hid⟩ := Variable.exists_id hparent
  refine Set.Subset.antisymm ?_ ?_
  · intro value hvalue
    obtain ⟨active, state, hstate, rfl, hactive⟩ :=
      run.exists_state_of_mem_results hv hid hparent hvalue
    refine ⟨state, ?_, rfl⟩
    cases active with
    | true => exact hstate
    | false =>
      -- it is absent, so it is optional
      rcases h with hoptional | unconditional
      · rw [Finset.mem_singleton.mp hstate]
        exact Variable.none_mem_states hoptional
      · cases hactive unconditional
  · rintro _ ⟨state, hstate, rfl⟩
    exact run.mem_results_of_mem_states plain hv hid hstate

/-- Otherwise the variable is also absent in some solution. -/
theorem results_eq_insert (run : Run root t b) (plain : t.added = []) {v : Variable V}
    (hv : v ∈ t.created) {parent : Handle} (hparent : v.parent = .ok parent)
    (hsometimes : ¬Unconditional t.created parent) :
    b.build.results v =
      (fun state => (Choice.always state).decoded v) '' insert none (v.states : Set _) := by
  obtain ⟨id, hid⟩ := Variable.exists_id hparent
  refine Set.Subset.antisymm ?_ ?_
  · intro value hvalue
    obtain ⟨active, state, hstate, rfl, _⟩ :=
      run.exists_state_of_mem_results hv hid hparent hvalue
    refine ⟨state, ?_, rfl⟩
    cases active with
    | true => exact .inr hstate
    | false => exact .inl (Finset.mem_singleton.mp hstate)
  · rintro _ ⟨state, rfl | hstate, rfl⟩
    · obtain ⟨c, hconsistent, hidle⟩ := run.grown.exists_not_chosen run.nodup_ids
        (run.known_of_parent hv hparent) hsometimes
      have habsent : c.places id = none := by
        by_contra hpresent
        have hchosen := (Choice.chosen_handle hid).mpr (Option.isSome_iff_ne_none.mpr hpresent)
        exact hidle ((hconsistent v hv).nested parent hparent hchosen)
      rw [← habsent]
      exact run.decoded_mem_results plain hconsistent hv hid
    · exact run.mem_results_of_mem_states plain hv hid hstate

theorem encard_results_states (run : Run root t b) (plain : t.added = []) {v : Variable V}
    (hv : v ∈ t.created) (hreflexive : ∀ s, v = .select s → s.domain.Reflexive)
    {parent : Handle} (hparent : v.parent = .ok parent)
    (h : v.optional = true ∨ Unconditional t.created parent) :
    (b.build.results v).encard = v.outcomes := by
  obtain ⟨id, hid⟩ := Variable.exists_id hparent
  have hinj := (Variable.injOn_decoded hid hreflexive).mono (Set.subset_insert none _)
  rw [run.results_eq_states plain hv hparent h, hinj.encard_image,
    Set.encard_coe_eq_coe_finsetCard, v.card_states]

/-- **As many results as outcomes.** Over the solutions of a model without added constraints,
every variable whose values equal themselves decodes to something. The number of its results,
absence being one, is that of its outcomes if it is optional or its parent is chosen in any
case, as one is that anchors at the root; and it is one more if it is mandatory and its parent
is not chosen in any case. -/
theorem encard_results (run : Run root t b) (plain : t.added = [])
    (reflexive : ∀ s, .select s ∈ t.created → s.domain.Reflexive) {v : Variable V}
    (hv : v ∈ t.created) :
    ∃ parent, v.parent = .ok parent ∧
      (∀ a : BitArray, a.size = b.build.width → b.build.isSatisfied a = .ok true →
        ∃ value, b.build.valueOf v a = .ok value) ∧
      (parent.anchor = .root → Unconditional t.created parent) ∧
      (v.optional = true ∨ Unconditional t.created parent →
        (b.build.results v).encard = v.outcomes) ∧
      (v.optional = false → ¬Unconditional t.created parent →
        (b.build.results v).encard = v.outcomes + 1) := by
  obtain ⟨parent, hparent, hknown⟩ := run.parent_known hv
  obtain ⟨id, hid⟩ := Variable.exists_id hparent
  have hreflexive : ∀ s, v = .select s → s.domain.Reflexive := by
    rintro s rfl
    exact reflexive s hv
  refine ⟨parent, hparent, fun a hsize sat => run.exists_valueOf hsize sat hv,
    run.grown.unconditional_of_anchor_root hknown,
    run.encard_results_states plain hv hreflexive hparent, ?_⟩
  intro hmandatory hsometimes
  have habsent : none ∉ v.states := fun hnone => by
    cases Variable.isSome_of_mem_states hid hmandatory hnone
  rw [run.results_eq_insert plain hv hparent hsometimes,
    (Variable.injOn_decoded hid hreflexive).encard_image, Set.encard_insert_of_notMem habsent,
    Set.encard_coe_eq_coe_finsetCard, v.card_states]

end Run

/-! ## A crate

There is only one make of crates, and it comes with one of two lids. -/

namespace Crate

def make : Select Nat :=
  ⟨⟨0⟩, "make", .root, .nominal, false, ⟨[1], by decide, by decide⟩, Parcel.anchored_root⟩

def lid : Select Nat :=
  ⟨⟨1⟩, "lid", .option ⟨make.ref, 0⟩, .nominal, false, Parcel.size.domain, .inr (by decide)⟩

def transcript : Transcript Nat :=
  [⟨.select .nominal "make" false .root [1], .created (.select make)⟩,
   ⟨.select .nominal "lid" false lid.parent [1, 2], .created (.select lid)⟩]

/-- The literal of a bit of a crate being set. -/
def literal (index : Fin 3) : Literal :=
  .ofIndex index true (Nat.lt_trans index.isLt (by decide))

def session : Builder where
  root := "crate"
  counter := 2
  layout := Layout.empty |>.extend ⟨0⟩ 1 |>.extend ⟨1⟩ 2
  constraints :=
    [.disjunction [literal 0],
     .cardinality [literal 0] .le 1,
     .reified (literal 0) (.disjunction [literal 1, literal 2]),
     .cardinality [literal 1, literal 2] .le 1]

theorem run : Run "crate" transcript session := by
  have hstart : Run (V := Nat) "crate" [] (.new "crate") := .start
  have hmake := hstart.serve_known (r := .select .nominal "make" false .root [1]) .root rfl
  exact hmake.serve_known (r := .select .nominal "lid" false lid.parent [1, 2])
    (.option (s := make) (o := ⟨⟨make.ref, 0⟩, 1⟩) (.head _) (by decide)) rfl

/-- The only make is always chosen. -/
theorem unconditional_make : Unconditional transcript.created lid.parent := by
  have hmake : Variable.select make ∈ transcript.created := .head _
  exact .only (s := make) (o := ⟨⟨make.ref, 0⟩, 1⟩) hmake (by decide) rfl
    (.mandatory hmake rfl rfl .root)

/-- A crate always has a lid, although the make of crates has a bit. So it does not take an
anchor at the root for a mandatory variable to be always there. -/
theorem lid_always_there :
    ¬∀ (root : String) (t : Transcript Nat) (b : Builder), Run root t b → t.added = [] →
      (∀ s, .select s ∈ t.created → s.domain.Reflexive) → ∀ v ∈ t.created, ∀ parent,
        v.parent = .ok parent →
          (v.optional = true ∨ parent.anchor = .root →
            (b.build.results v).encard = v.outcomes) ∧
          (v.optional = false → parent.anchor ≠ .root →
            (b.build.results v).encard = v.outcomes + 1) := by
  intro h
  have hlid : Variable.select lid ∈ transcript.created := .tail _ (.head _)
  have hclaimed := (h _ _ _ run rfl (fun s _ => s.domain.reflexive) _ hlid _ rfl).2 rfl nofun
  rw [run.encard_results_states rfl hlid (fun s _ => s.domain.reflexive) rfl
    (.inr unconditional_make)] at hclaimed
  exact absurd hclaimed (by decide)

end Crate

namespace Parcel

/-- The extras decode to one of three selections or to nothing, the wrapping to one or to
nothing, and the lid of a crate to one of two. -/
theorem encard_extras_wrap_lid :
    transcript.added = [] ∧ Crate.transcript.added = [] ∧
    (∀ s, .select s ∈ transcript.created → s.domain.Reflexive) ∧
    (∀ s, .select s ∈ Crate.transcript.created → s.domain.Reflexive) ∧
    .select extras ∈ transcript.created ∧ ¬Unconditional transcript.created gift.handle ∧
    (session.build.results (.select extras)).encard = 4 ∧
    .select wrap ∈ transcript.created ∧ (session.build.results (.select wrap)).encard = 2 ∧
    .select Crate.lid ∈ Crate.transcript.created ∧
    (Crate.session.build.results (.select Crate.lid)).encard = 2 := by
  have hgift : .flag gift ∈ transcript.created := .tail _ (.head _)
  have hextras : .select extras ∈ transcript.created := .tail _ (.tail _ (.head _))
  have hwrap : .select wrap ∈ transcript.created := .tail _ (.tail _ (.tail _ (.head _)))
  have hlid : .select Crate.lid ∈ Crate.transcript.created := .tail _ (.head _)
  have hreflexive : ∀ s, .select s ∈ transcript.created → s.domain.Reflexive :=
    fun s _ => s.domain.reflexive
  have hreflexive' : ∀ s, .select s ∈ Crate.transcript.created → s.domain.Reflexive :=
    fun s _ => s.domain.reflexive
  have hsometimes : ¬Unconditional transcript.created gift.handle :=
    run.not_unconditional hgift rfl
  obtain ⟨_, ⟨⟩, _, _, _, hmandatory⟩ := run.encard_results rfl hreflexive hextras
  obtain ⟨_, ⟨⟩, _, _, hoptional, _⟩ := run.encard_results rfl hreflexive hwrap
  obtain ⟨_, ⟨⟩, _, _, hthere, _⟩ := Crate.run.encard_results rfl hreflexive' hlid
  exact ⟨rfl, rfl, hreflexive, hreflexive', hextras, hsometimes, hmandatory rfl hsometimes, hwrap,
    hoptional (.inl rfl), hlid, hthere (.inr Crate.unconditional_make)⟩

end Parcel

end ChoiceTree
