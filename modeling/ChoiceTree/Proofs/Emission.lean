import Mathlib
import ChoiceTree.Proofs.BitSpace
import ChoiceTree.Proofs.Decoding

/-!
# What a variable adds to the constraints

A select is emitted as a disjunction of its option literals, tied to its
governor unless that is always active, and a bound on their number if it is
nominal. An optional variable is emitted with a clause that ties it to its
parent, unless that is always active.

Whatever the case, the meaning is the same: `Select.holds_implicitConstraints`
and `Variable.holds_scopeConstraints` state it over the truth values of the
bits, and `Variable.index_lt_of_mem_emitted` that no constraint looks at a bit
outside the layout.
-/

namespace ChoiceTree

variable {V : Type} [BEq V]

/-! ## Options and handles -/

namespace Select

@[simp] theorem length_options (s : Select V) : s.options.length = s.domain.size := by
  rw [options, List.length_mapIdx, Domain.size]

/-- The option at a place of the domain. -/
theorem getElem_options (s : Select V) {i : Nat} (h : i < s.options.length) :
    s.options[i] =
      ⟨⟨s.ref, i⟩, s.domain.values.get ⟨i, by rwa [length_options] at h⟩⟩ := by
  simp only [options, List.getElem_mapIdx, List.get_eq_getElem]

theorem mem_options {s : Select V} {o : SelectOption V} (h : o ∈ s.options) :
    o.ref.owner = s.ref ∧ o.ref.index < s.domain.size ∧
      s.domain.values[o.ref.index]? = some o.value := by
  obtain ⟨i, hi, rfl⟩ := List.mem_iff_getElem.mp h
  have hsize : i < s.domain.size := by rwa [length_options] at hi
  rw [getElem_options]
  exact ⟨rfl, hsize, List.getElem?_eq_getElem hsize⟩

/-- An option anchors at its option bit. -/
theorem anchor_option {s : Select V} {o : SelectOption V} (h : o ∈ s.options) :
    o.handle.anchor = .bit s.id (s.firstOption + o.ref.index) := by
  obtain ⟨howner, _, _⟩ := mem_options h
  show Anchor.bit o.ref.owner.id o.ref.position = _
  rw [OptionRef.position, howner, ref, VarRef.id_under, VarRef.isOptional_under, Nat.add_comm,
    firstOption]

/-- An optional select anchors at its activation bit, a mandatory one where its
parent does. -/
theorem anchor_handle (s : Select V) :
    s.handle.anchor = if s.optional then .bit s.id 0 else s.parent.anchor :=
  VarRef.anchor_under _ _ _

/-- A select is governed from where it anchors. -/
theorem anchor_governor (s : Select V) : s.governor.anchor = s.handle.anchor := by
  rw [governor]
  cases hoptional : s.optional with
  | true => rw [if_pos rfl]
  | false => rw [if_neg Bool.false_ne_true, anchor_handle, hoptional, if_neg Bool.false_ne_true]

end Select

namespace Variable

/-- Whatever has a parent has an identity. -/
theorem exists_id {v : Variable V} {parent : Handle} (h : v.parent = .ok parent) :
    ∃ id, v.id? = some id := by
  cases v with
  | root name => cases h
  | flag f => exact ⟨f.id, rfl⟩
  | select s => exact ⟨s.id, rfl⟩

/-- The handle of a variable with an identity refers to that identity. -/
theorem handle_eq_var {v : Variable V} {id : VarId} (h : v.id? = some id) :
    ∃ ref, v.handle = .var ref ∧ ref.id = id := by
  cases v with
  | root name => cases h
  | flag f =>
    cases h
    exact ⟨_, rfl, rfl⟩
  | select s =>
    cases h
    exact ⟨_, rfl, VarRef.id_under _ _ _⟩

/-- An optional variable anchors at its first bit. -/
theorem anchor_handle_of_optional {v : Variable V} {id : VarId} (h : v.id? = some id)
    (hoptional : v.optional = true) : v.handle.anchor = .bit id 0 := by
  cases v with
  | root name => cases h
  | flag f =>
    cases h
    rfl
  | select s =>
    cases h
    have hs : s.optional = true := hoptional
    show s.handle.anchor = _
    rw [s.anchor_handle, hs, if_pos rfl]

/-- A mandatory variable anchors where its parent does. -/
theorem anchor_handle_of_mandatory {v : Variable V} {parent : Handle}
    (hparent : v.parent = .ok parent) (hmandatory : v.optional = false) :
    v.handle.anchor = parent.anchor := by
  cases v with
  | root name => cases hparent
  | flag f => cases hmandatory
  | select s =>
    cases hparent
    have hs : s.optional = false := hmandatory
    show s.handle.anchor = _
    rw [s.anchor_handle, hs, if_neg Bool.false_ne_true]

/-- An optional variable has its activation bit. -/
theorem size_pos_of_optional {v : Variable V} (hoptional : v.optional = true) : 0 < v.size := by
  cases v with
  | root name => cases hoptional
  | flag f => exact Nat.zero_lt_one
  | select s =>
    have hs : s.optional = true := hoptional
    show 0 < s.domain.size + s.firstOption
    rw [Select.firstOption, hs]
    exact Nat.succ_pos _

/-- The literal of the parent is the guard of the parent's handle. -/
theorem parentLiteral_eq_guard {v : Variable V} {parent : Handle} (h : v.parent = .ok parent)
    (layout : Layout) : v.parentLiteral layout = parent.guard layout := by
  cases v with
  | root name => cases h
  | flag f => cases h; rfl
  | select s => cases h; rfl

end Variable

/-- The constraint itself, tied to the guard if there is one. -/
def Constraint.guarded (guard : Option Literal) (c : Constraint) : Constraint :=
  match guard with
  | none => c
  | some l => .reified l c

/-- A guarded constraint holds exactly if it is as true as its guard. -/
theorem Constraint.holds_guarded (guard : Option Literal) (c : Constraint) (p : Nat → Bool) :
    (guarded guard c).holds p = (guard.all (·.holds p) == c.holds p) := by
  cases guard with
  | none => rw [guarded, Option.all_none, Bool.true_beq]
  | some l => rfl

/-! ## The constraints of a select -/

namespace Select

/-- Whether the places may be those of a select that is active. -/
def Admits (s : Select V) (places : Finset Nat) : Prop :=
  match s.kind with
  | .nominal => places.card = 1
  | .multiple => places.Nonempty

theorem Admits.nonempty {s : Select V} {places : Finset Nat} (h : s.Admits places) :
    places.Nonempty := by
  rw [Admits] at h
  cases hkind : s.kind with
  | nominal =>
    rw [hkind] at h
    exact Finset.card_pos.mp (by rw [h]; exact Nat.zero_lt_one)
  | multiple =>
    rw [hkind] at h
    exact h

/-- The truth values of the option literals are the option bits. -/
theorem map_holds_literals {s : Select V} {layout : Layout} {literals : List Literal}
    {r : Reservation} (h : s.options.mapM (SelectOption.toLiteral layout) = .ok literals)
    (hr : layout.find? s.id = some r) (p : Nat → Bool) :
    literals.map (·.holds p) =
      (List.range s.domain.size).map fun i => p (r.start + s.firstOption + i) := by
  have hall := mapM_eq_ok.mp h
  apply List.ext_getElem
  · rw [List.length_map, List.length_map, List.length_range, ← hall.length_eq, length_options]
  · intro i hi hi'
    have hliteral : i < literals.length := by rwa [List.length_map] at hi
    have hoption : i < s.options.length := by rwa [hall.length_eq]
    have hget := hall.get hoption hliteral
    have hmem : s.options[i] ∈ s.options := List.getElem_mem hoption
    have hindex : s.options[i].ref.index = i := by rw [getElem_options]
    rw [List.getElem_map, List.getElem_map, List.getElem_range]
    have hholds := Handle.holds_of_toLiteral hget p
    rw [List.get_eq_getElem, List.get_eq_getElem] at hholds
    rw [hholds, anchor_option hmem, Anchor.active_bit hr, hindex, Nat.add_assoc]

/-- Some option literal is true exactly if some option bit is set. -/
theorem any_holds_literals {s : Select V} {layout : Layout} {literals : List Literal}
    {r : Reservation} (h : s.options.mapM (SelectOption.toLiteral layout) = .ok literals)
    (hr : layout.find? s.id = some r) (p : Nat → Bool) :
    literals.any (·.holds p) = true ↔ (s.placesOn p r.start).Nonempty := by
  have hmap := congrArg (fun bits => bits.any fun b => b) (map_holds_literals h hr p)
  simp only [List.any_map, Function.comp_def] at hmap
  rw [hmap, List.any_eq_true]
  constructor
  · intro h
    obtain ⟨i, hi, hset⟩ := h
    exact ⟨i, mem_placesOn.mpr ⟨List.mem_range.mp hi, hset⟩⟩
  · intro h
    obtain ⟨i, hi⟩ := h
    obtain ⟨hlt, hset⟩ := mem_placesOn.mp hi
    exact ⟨i, List.mem_range.mpr hlt, hset⟩

/-- As many option literals are true as option bits are set. -/
theorem countP_holds_literals {s : Select V} {layout : Layout} {literals : List Literal}
    {r : Reservation} (h : s.options.mapM (SelectOption.toLiteral layout) = .ok literals)
    (hr : layout.find? s.id = some r) (p : Nat → Bool) :
    literals.countP (·.holds p) = (s.placesOn p r.start).card := by
  -- both sides filter the same range by the same bits
  have hmap := congrArg (fun bits => bits.countP fun b => b) (map_holds_literals h hr p)
  simp only [List.countP_map, Function.comp_def] at hmap
  rw [hmap, List.countP_eq_length_filter]
  simp only [placesOn, Finset.card, Finset.filter, Finset.range, Multiset.range,
    Multiset.filter_coe, Multiset.coe_card, Bool.decide_eq_true]

/-- What is emitted for the option literals and the guard of the governor. -/
def constraintsOver (s : Select V) (literals : List Literal) (guard : Option Literal) :
    List Constraint :=
  match s.kind with
  | .nominal => [.guarded guard (.disjunction literals), .cardinality literals .le 1]
  | .multiple => [.guarded guard (.disjunction literals)]

/-- A select's constraints mention its option literals and its guard. -/
theorem literals_constraintsOver {s : Select V} {literals : List Literal}
    {guard : Option Literal} {c : Constraint} (hc : c ∈ s.constraintsOver literals guard)
    {l : Literal} (hl : l ∈ c.literals) : l ∈ literals ∨ guard = some l := by
  have hguarded : l ∈ (Constraint.guarded guard (.disjunction literals)).literals →
      l ∈ literals ∨ guard = some l := by
    intro h
    cases guard with
    | none => exact .inl h
    | some active =>
      rcases List.mem_cons.mp h with rfl | h
      · exact .inr rfl
      · exact .inl h
  rw [constraintsOver] at hc
  split at hc
  · rcases List.mem_pair.mp hc with rfl | rfl
    · exact hguarded hl
    · exact .inl hl
  · cases List.mem_singleton.mp hc
    exact hguarded hl

theorem implicitConstraints_eq_ok {s : Select V} {layout : Layout} {cs : List Constraint} :
    s.implicitConstraints layout = .ok cs ↔
      ∃ literals guard, s.options.mapM (SelectOption.toLiteral layout) = .ok literals ∧
        s.governor.guard layout = .ok guard ∧ cs = s.constraintsOver literals guard := by
  rw [implicitConstraints, bind_eq_ok]
  constructor
  · intro h
    obtain ⟨literals, hliterals, h⟩ := h
    obtain ⟨guard, hguard, h⟩ := bind_eq_ok.mp h
    refine ⟨literals, guard, hliterals, hguard, ?_⟩
    rw [constraintsOver]
    cases guard <;> cases hkind : s.kind <;> rw [hkind] at h <;> cases h <;> rfl
  · intro h
    obtain ⟨literals, guard, hliterals, hguard, rfl⟩ := h
    refine ⟨literals, hliterals, bind_eq_ok.mpr ⟨guard, hguard, ?_⟩⟩
    rw [constraintsOver]
    cases guard <;> cases s.kind <;> rfl

/-- Something is chosen exactly while active: nothing is chosen while inactive. -/
private theorem tied_iff (active : Bool) (places : Finset Nat) :
    (active = true ↔ places.Nonempty) ↔
      (active = true → places.Nonempty) ∧ (active = false → places = ∅) := by
  cases active with
  | false => simp [Finset.not_nonempty_iff_eq_empty]
  | true => simp

/-- **Meaning of a select's constraints.** The option bits that are set are
those of a select that is active while the governor is, and there are none
while it is not. -/
theorem holds_implicitConstraints {s : Select V} {layout : Layout} {cs : List Constraint}
    {r : Reservation} (h : s.implicitConstraints layout = .ok cs)
    (hr : layout.find? s.id = some r) (p : Nat → Bool) :
    (∀ c ∈ cs, c.holds p = true) ↔
      (s.governor.anchor.active layout p = true → s.Admits (s.placesOn p r.start)) ∧
      (s.governor.anchor.active layout p = false → s.placesOn p r.start = ∅) := by
  obtain ⟨literals, guard, hliterals, hguard, rfl⟩ := implicitConstraints_eq_ok.mp h
  have hany := any_holds_literals hliterals hr p
  have hcount := countP_holds_literals hliterals hr p
  have hguarded := Constraint.holds_guarded guard (.disjunction literals) p
  rw [Handle.all_holds_of_guard hguard] at hguarded
  generalize s.governor.anchor.active layout p = active at hguarded ⊢
  have hchosen : (Constraint.guarded guard (.disjunction literals)).holds p = true ↔
      (active = true ↔ (s.placesOn p r.start).Nonempty) := by
    rw [hguarded, beq_iff_eq, Bool.eq_iff_iff, ← hany]
    rfl
  rw [Admits, constraintsOver]
  cases s.kind with
  | nominal =>
    -- some option and at most one make exactly one
    have hbound : (Constraint.cardinality literals .le 1).holds p = true ↔
        (s.placesOn p r.start).card ≤ 1 := by
      rw [← hcount]
      exact decide_eq_true_iff
    rw [List.forall_mem_cons, List.forall_mem_singleton, hchosen, hbound, tied_iff]
    constructor
    · rintro ⟨⟨hsome, hnone⟩, hle⟩
      exact ⟨fun h => Nat.le_antisymm hle (hsome h).card_pos, hnone⟩
    · rintro ⟨hone, hnone⟩
      refine ⟨⟨fun h => Finset.card_pos.mp (by rw [hone h]; exact Nat.zero_lt_one), hnone⟩, ?_⟩
      cases active with
      | false => rw [hnone rfl]; exact Nat.zero_le 1
      | true => exact Nat.le_of_eq (hone rfl)
  | multiple => rw [List.forall_mem_singleton, hchosen, tied_iff]

end Select

/-! ## The scope constraint -/

theorem Literal.index_negate {l opposite : Literal} (h : l.negate = .ok opposite) :
    opposite.index = l.index := by
  rw [negate] at h
  split at h
  · cases h
    rw [index, index, Int.natAbs_neg]
  · cases h

@[simp] theorem Literal.holds_ofIndex_false (p : Nat → Bool) {index : Nat}
    (h : index < indexBound) : (ofIndex index false h).holds p = !p index := by
  rw [holds, index_ofIndex, isPositive_ofIndex, beq_false]

namespace Variable

/-- A variable that is not optional, or whose parent is always active, is not
tied to its parent; any other is by one clause. -/
theorem scopeConstraints_eq_ok {v : Variable V} {parent : Handle} (hparent : v.parent = .ok parent)
    {layout : Layout} {cs : List Constraint} :
    v.scopeConstraints layout = .ok cs ↔
      v.optional = false ∧ cs = [] ∨
      v.optional = true ∧ parent.guard layout = .ok none ∧ cs = [] ∨
      v.optional = true ∧ ∃ l own notOwn, parent.guard layout = .ok (some l) ∧
        v.toLiteral layout = .ok own ∧ own.negate = .ok notOwn ∧
        cs = [.disjunction [notOwn, l]] := by
  rw [scopeConstraints, parentLiteral_eq_guard hparent]
  cases hoptional : v.optional with
  | false =>
    rw [if_neg Bool.false_ne_true]
    simp [eq_comm]
  | true =>
    rw [if_pos rfl, bind_eq_ok]
    constructor
    · intro h
      obtain ⟨guard, hguard, h⟩ := h
      cases guard with
      | none =>
        cases h
        exact .inr (.inl ⟨rfl, hguard, rfl⟩)
      | some l =>
        obtain ⟨own, hown, h⟩ := bind_eq_ok.mp h
        obtain ⟨notOwn, hnot, h⟩ := bind_eq_ok.mp h
        cases h
        exact .inr (.inr ⟨rfl, l, own, notOwn, hguard, hown, hnot, rfl⟩)
    · rintro (⟨hfalse, _⟩ | ⟨_, hguard, rfl⟩ | ⟨_, l, own, notOwn, hguard, hown, hnot, rfl⟩)
      · cases hfalse
      · exact ⟨none, hguard, rfl⟩
      · exact ⟨some l, hguard, bind_eq_ok.mpr ⟨own, hown, bind_eq_ok.mpr ⟨notOwn, hnot, rfl⟩⟩⟩

/-- **Meaning of the scope constraint.** The activation bit of an optional
variable is only set while its parent is active. -/
theorem holds_scopeConstraints {v : Variable V} {id : VarId} {parent : Handle} {layout : Layout}
    {cs : List Constraint} {r : Reservation} (h : v.scopeConstraints layout = .ok cs)
    (hparent : v.parent = .ok parent) (hid : v.id? = some id) (hr : layout.find? id = some r)
    (p : Nat → Bool) :
    (∀ c ∈ cs, c.holds p = true) ↔
      (v.optional = true → p r.start = true → parent.anchor.active layout p = true) := by
  rcases (scopeConstraints_eq_ok hparent).mp h with
    ⟨hoptional, rfl⟩ | ⟨_, hguard, rfl⟩ | ⟨hoptional, l, own, notOwn, hguard, hown, hnot, rfl⟩
  · rw [hoptional]
    simp
  · have hactive := Handle.all_holds_of_guard hguard p
    rw [← hactive]
    simp
  · have hactive := Handle.all_holds_of_guard hguard p
    -- the variable's own literal is that of its first bit
    obtain ⟨owner, position, r', hanchor, hr', hlt, rfl⟩ := Handle.toLiteral_eq_ok.mp hown
    rw [anchor_handle_of_optional hid hoptional] at hanchor
    cases hanchor
    cases hr.symm.trans hr'
    rw [Literal.negate_ofIndex] at hnot
    cases hnot
    rw [List.forall_mem_singleton, ← hactive, Constraint.holds, hoptional]
    simp only [List.any_cons, List.any_nil, Bool.not_true, Literal.holds_ofIndex_false,
      Option.all_some, Nat.add_zero, Bool.or_false, Bool.or_eq_true, Bool.not_eq_true', forall_const]
    cases p r.start with
    | false => simp
    | true => simp

/-- What is emitted for a variable: what makes its bits represent it, and what
ties it to its parent. -/
def emitted (layout : Layout) (v : Variable V) : Except Fault (List Constraint) := do
  let implicit ← v.implicitConstraints layout
  return implicit ++ (← v.scopeConstraints layout)

theorem emitted_eq_ok {v : Variable V} {layout : Layout} {cs : List Constraint} :
    v.emitted layout = .ok cs ↔
      ∃ implicit scope, v.implicitConstraints layout = .ok implicit ∧
        v.scopeConstraints layout = .ok scope ∧ cs = implicit ++ scope := by
  rw [emitted, bind_eq_ok]
  constructor
  · intro h
    obtain ⟨implicit, himplicit, h⟩ := h
    obtain ⟨scope, hscope, h⟩ := bind_eq_ok.mp h
    exact ⟨implicit, scope, himplicit, hscope, (pure_eq_ok.mp h).symm⟩
  · intro h
    obtain ⟨implicit, scope, himplicit, hscope, rfl⟩ := h
    exact ⟨implicit, himplicit, bind_eq_ok.mpr ⟨scope, hscope, rfl⟩⟩

/-- The governor of a select whose constraints are emitted has a guard. -/
theorem exists_guard_governor {s : Select V} {layout : Layout} {cs : List Constraint}
    (h : (Variable.select s).emitted layout = .ok cs) :
    ∃ guard, s.governor.guard layout = .ok guard := by
  obtain ⟨implicit, _, himplicit, _, _⟩ := emitted_eq_ok.mp h
  obtain ⟨_, guard, _, hguard, _⟩ := Select.implicitConstraints_eq_ok.mp himplicit
  exact ⟨guard, hguard⟩

/-- The parent of a variable whose constraints are emitted has a guard: it is asked
for by the scope constraint of an optional variable, and governs any other. -/
theorem exists_guard_parent {v : Variable V} {layout : Layout} {cs : List Constraint}
    {parent : Handle} (hparent : v.parent = .ok parent) (h : v.emitted layout = .ok cs) :
    ∃ guard, parent.guard layout = .ok guard := by
  cases hoptional : v.optional with
  | true =>
    obtain ⟨_, scope, _, hscope, _⟩ := emitted_eq_ok.mp h
    rcases (scopeConstraints_eq_ok hparent).mp hscope with
      ⟨hfalse, _⟩ | ⟨_, hguard, _⟩ | ⟨_, l, _, _, hguard, _⟩
    · rw [hoptional] at hfalse
      cases hfalse
    · exact ⟨none, hguard⟩
    · exact ⟨some l, hguard⟩
  | false =>
    cases v with
    | root name => cases hparent
    | flag f => cases hoptional
    | select s =>
      have hs : s.optional = false := hoptional
      obtain ⟨guard, hguard⟩ := exists_guard_governor h
      cases hparent
      rw [Select.governor, hs, if_neg Bool.false_ne_true] at hguard
      exact ⟨guard, hguard⟩

theorem implicitConstraints_mono {layout layout' : Layout} (hg : layout.Grows layout')
    {v : Variable V} {cs : List Constraint} (h : v.implicitConstraints layout = .ok cs) :
    v.implicitConstraints layout' = .ok cs := by
  cases v with
  | root name => exact h
  | flag f => exact h
  | select s =>
    obtain ⟨literals, guard, hliterals, hguard, hcs⟩ := Select.implicitConstraints_eq_ok.mp h
    have hliterals' := mapM_eq_ok.mpr
      ((mapM_eq_ok.mp hliterals).imp fun _ _ hl => Handle.toLiteral_mono hg hl)
    exact Select.implicitConstraints_eq_ok.mpr
      ⟨literals, guard, hliterals', Handle.guard_mono hg hguard, hcs⟩

theorem scopeConstraints_mono {layout layout' : Layout} (hg : layout.Grows layout')
    {v : Variable V} {parent : Handle} (hparent : v.parent = .ok parent) {cs : List Constraint}
    (h : v.scopeConstraints layout = .ok cs) : v.scopeConstraints layout' = .ok cs := by
  rw [scopeConstraints_eq_ok hparent] at h ⊢
  rcases h with h | ⟨hoptional, hguard, hcs⟩ |
    ⟨hoptional, l, own, notOwn, hguard, hown, hnot, hcs⟩
  · exact .inl h
  · exact .inr (.inl ⟨hoptional, Handle.guard_mono hg hguard, hcs⟩)
  · exact .inr (.inr ⟨hoptional, l, own, notOwn, Handle.guard_mono hg hguard,
      Handle.toLiteral_mono hg hown, hnot, hcs⟩)

/-- What is emitted for a variable stays what it is while the layout grows. -/
theorem emitted_mono {layout layout' : Layout} (hg : layout.Grows layout') {v : Variable V}
    {parent : Handle} (hparent : v.parent = .ok parent) {cs : List Constraint}
    (h : v.emitted layout = .ok cs) : v.emitted layout' = .ok cs := by
  obtain ⟨implicit, scope, himplicit, hscope, hcs⟩ := emitted_eq_ok.mp h
  exact emitted_eq_ok.mpr ⟨implicit, scope, implicitConstraints_mono hg himplicit,
    scopeConstraints_mono hg hparent hscope, hcs⟩

/-- The anchor of a registered variable is registered if its parent's is. -/
theorem registered_handle {v : Variable V} {id : VarId} {parent : Handle} {layout : Layout}
    {r : Reservation} (hparent : v.parent = .ok parent) (hid : v.id? = some id)
    (hr : layout.find? id = some r) (hlength : r.length = v.size)
    (hregistered : parent.anchor.Registered layout) : v.handle.anchor.Registered layout := by
  cases hoptional : v.optional with
  | true =>
    rw [anchor_handle_of_optional hid hoptional]
    exact ⟨r, hr, hlength ▸ size_pos_of_optional hoptional⟩
  | false =>
    rw [anchor_handle_of_mandatory hparent hoptional]
    exact hregistered

end Variable

/-- The anchors of the options of a registered select are registered. -/
theorem Select.registered_option {s : Select V} {layout : Layout} {r : Reservation}
    (hr : layout.find? s.id = some r) (hlength : r.length = s.size) {o : SelectOption V}
    (ho : o ∈ s.options) : o.handle.anchor.Registered layout := by
  obtain ⟨_, hlt, _⟩ := mem_options ho
  rw [anchor_option ho]
  refine ⟨r, hr, ?_⟩
  rw [hlength, size]
  omega

namespace Variable

/-- A literal of a handle that anchors at a bit of the variable is the literal of that
bit. -/
theorem index_of_toLiteral {layout : Layout} {handle : Handle} {id : VarId} {position : Nat}
    {r : Reservation} (hanchor : handle.anchor = .bit id position)
    (hr : layout.find? id = some r) {l : Literal} (h : handle.toLiteral layout = .ok l) :
    l.index = r.start + position := by
  obtain ⟨_, _, r', hanchor', hr', _, rfl⟩ := Handle.toLiteral_eq_ok.mp h
  cases hanchor.symm.trans hanchor'
  cases hr.symm.trans hr'
  exact Literal.index_ofIndex _ _ _

/-- **What is emitted for a variable is about its own bits and about its parent.** Every
literal is that of a bit reserved for the variable or of the bit its parent anchors
at. -/
theorem index_of_mem_emitted {layout : Layout} {v : Variable V} {id : VarId} {parent : Handle}
    {r : Reservation} (hparent : v.parent = .ok parent) (hid : v.id? = some id)
    (hr : layout.find? id = some r) {cs : List Constraint} (h : v.emitted layout = .ok cs) :
    ∀ c ∈ cs, ∀ l ∈ c.literals, (∃ position < v.size, l.index = r.start + position) ∨
      ∃ above, parent.toLiteral layout = .ok above ∧ l.index = above.index := by
  obtain ⟨implicit, scope, himplicit, hscope, rfl⟩ := emitted_eq_ok.mp h
  intro c hc l hl
  rcases List.mem_append.mp hc with hc | hc
  · cases v with
    | root name => cases himplicit; cases hc
    | flag f => cases himplicit; cases hc
    | select s =>
      cases hid
      cases hparent
      obtain ⟨literals, guard, hliterals, hguard, rfl⟩ :=
        Select.implicitConstraints_eq_ok.mp himplicit
      rcases Select.literals_constraintsOver hc hl with hmem | rfl
      · obtain ⟨o, ho, hliteral⟩ := exists_of_mem_mapM hliterals l hmem
        obtain ⟨_, hlt, _⟩ := Select.mem_options ho
        have hsize : s.firstOption + o.ref.index < s.size := by
          rw [Select.size]
          omega
        exact .inl ⟨_, hsize, index_of_toLiteral (Select.anchor_option ho) hr hliteral⟩
      · -- the governor is the select itself if it is optional, and the parent if not
        have hliteral := Handle.toLiteral_of_guard hguard
        cases hoptional : s.optional with
        | true =>
          have hanchor : s.governor.anchor = .bit s.id 0 := by
            rw [s.anchor_governor, s.anchor_handle, hoptional, if_pos rfl]
          exact .inl ⟨0, size_pos_of_optional hoptional, index_of_toLiteral hanchor hr hliteral⟩
        | false =>
          rw [Select.governor, hoptional, if_neg Bool.false_ne_true] at hliteral
          exact .inr ⟨l, hliteral, rfl⟩
  · rcases (scopeConstraints_eq_ok hparent).mp hscope with
      ⟨_, rfl⟩ | ⟨_, _, rfl⟩ | ⟨hoptional, tied, own, notOwn, hguard, hliteral, hnot, rfl⟩
    · cases hc
    · cases hc
    · cases List.mem_singleton.mp hc
      rcases List.mem_pair.mp hl with rfl | rfl
      · rw [Literal.index_negate hnot]
        have hanchor := anchor_handle_of_optional hid hoptional
        exact .inl ⟨0, size_pos_of_optional hoptional, index_of_toLiteral hanchor hr hliteral⟩
      · exact .inr ⟨l, Handle.toLiteral_of_guard hguard, rfl⟩

/-- No constraint that is emitted for a registered variable looks at a bit outside
the layout. -/
theorem index_lt_of_mem_emitted {layout : Layout} (hpacked : layout.Packed) {v : Variable V}
    {id : VarId} {parent : Handle} {r : Reservation} (hparent : v.parent = .ok parent)
    (hid : v.id? = some id) (hr : layout.find? id = some r) (hlength : r.length = v.size)
    (hregistered : parent.anchor.Registered layout) {cs : List Constraint}
    (h : v.emitted layout = .ok cs) :
    ∀ c ∈ cs, ∀ l ∈ c.literals, l.index < layout.size := by
  intro c hc l hl
  rcases index_of_mem_emitted hparent hid hr h c hc l hl with
    ⟨position, hlt, hindex⟩ | ⟨above, habove, hindex⟩
  · have hstop := hpacked.stop_le hr
    omega
  · rw [hindex]
    exact Handle.index_lt_of_toLiteral hpacked hregistered habove

/-- Within the literal range, the constraints of a variable whose parent is registered
can be emitted. -/
theorem exists_emitted {layout : Layout} (hpacked : layout.Packed)
    (narrow : layout.size ≤ Literal.indexBound) {v : Variable V} {id : VarId} {parent : Handle}
    {r : Reservation} (hparent : v.parent = .ok parent) (hid : v.id? = some id)
    (hr : layout.find? id = some r) (hlength : r.length = v.size)
    (hregistered : parent.anchor.Registered layout) : ∃ cs, v.emitted layout = .ok cs := by
  have hown := registered_handle hparent hid hr hlength hregistered
  have himplicit : ∃ implicit, v.implicitConstraints layout = .ok implicit := by
    cases v with
    | root name => exact ⟨[], rfl⟩
    | flag f => exact ⟨[], rfl⟩
    | select s =>
      cases hid
      obtain ⟨literals, hliterals⟩ : ∃ literals,
          s.options.mapM (SelectOption.toLiteral layout) = .ok literals := by
        refine exists_mapM fun o ho => ?_
        have hbit : o.handle.anchor ≠ .root := by
          rw [Select.anchor_option ho]
          exact Anchor.noConfusion
        exact Handle.exists_literal hpacked (Select.registered_option hr hlength ho) hbit narrow
      have hgovernor : s.governor.anchor.Registered layout := by
        rw [s.anchor_governor]
        exact hown
      obtain ⟨guard, hguard⟩ := Handle.exists_guard hpacked hgovernor narrow
      exact ⟨_, Select.implicitConstraints_eq_ok.mpr ⟨literals, guard, hliterals, hguard, rfl⟩⟩
  have hscope : ∃ scope, v.scopeConstraints layout = .ok scope := by
    simp only [scopeConstraints_eq_ok hparent]
    obtain ⟨guard, hguard⟩ := Handle.exists_guard hpacked hregistered narrow
    by_cases hoptional : v.optional = true
    · cases guard with
      | none => exact ⟨[], .inr (.inl ⟨hoptional, hguard, rfl⟩)⟩
      | some l =>
        have hanchor := anchor_handle_of_optional hid hoptional
        have hbit : v.handle.anchor ≠ .root := by
          rw [hanchor]
          exact Anchor.noConfusion
        obtain ⟨own, hliteral⟩ := Handle.exists_literal hpacked hown hbit narrow
        obtain ⟨_, _, _, _, _, hlt, rfl⟩ := Handle.toLiteral_eq_ok.mp hliteral
        have hopposite := Literal.negate_ofIndex true hlt
        exact ⟨_, .inr (.inr ⟨hoptional, l, _, _, hguard, hliteral, hopposite, rfl⟩)⟩
    · exact ⟨[], .inl ⟨Bool.eq_false_iff.mpr hoptional, rfl⟩⟩
  obtain ⟨implicit, himplicit⟩ := himplicit
  obtain ⟨scope, hscope⟩ := hscope
  exact ⟨_, emitted_eq_ok.mpr ⟨implicit, scope, himplicit, hscope, rfl⟩⟩

end Variable

end ChoiceTree
