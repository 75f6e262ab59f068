import Mathlib
import ChoiceTree.Proofs.Allocation
import ChoiceTree.Proofs.Emission

/-!
# What the bits stand for

Two computations have to agree on where a variable's bits are: the layout hands
them out, and handles count positions. In a layout of variables of different
identities they fit together without a seam: in the order of registration, the
handles that have a bit of their own stand for the bits 0, 1, 2, ….

* `Variable.ownHandles`, `Variable.anchor_ownHandles` — the handles of one
  variable, and the positions they anchor at;
* `Layout.map_toLiteral_ownHandles` — the literals of all of them;
* `Layout.Owned`, `Layout.registerAll_owned` — every bit stands for one thing.
-/

namespace ChoiceTree

variable {V : Type} [BEq V]

/-! ## The handles of one variable -/

namespace Variable

/-- The handles that have a bit of their own, in the order of their bits: that of an
optional variable, then those of the options. -/
def ownHandles (v : Variable V) : List Handle :=
  (if v.optional then [v.handle] else []) ++
    match v with
    | .select s => s.options.map SelectOption.handle
    | _ => []

/-- In order, these handles anchor at the positions of the variable's bits. -/
theorem anchor_ownHandles {v : Variable V} {id : VarId} (hid : v.id? = some id) :
    v.ownHandles.map Handle.anchor = (List.range v.size).map (Anchor.bit id) := by
  cases v with
  | root name => cases hid
  | flag f =>
    cases hid
    rfl
  | select s =>
    cases hid
    have hoptions : s.options.map (Handle.anchor ∘ SelectOption.handle) =
        (List.range s.domain.size).map fun i => Anchor.bit s.id (s.firstOption + i) := by
      apply List.ext_getElem
      · rw [List.length_map, List.length_map, List.length_range, Select.length_options]
      · intro i hi _
        rw [List.length_map] at hi
        have hindex : s.options[i].ref.index = i := by rw [Select.getElem_options]
        rw [List.getElem_map, List.getElem_map, List.getElem_range, Function.comp_apply,
          Select.anchor_option (List.getElem_mem hi), hindex]
    have hsize : (Variable.select s).size = s.domain.size + s.firstOption := rfl
    have hself : (Variable.select s).optional = s.optional := rfl
    rw [ownHandles, List.map_append, List.map_map, hoptions, hsize, hself]
    cases hoptional : s.optional with
    | false =>
      rw [Select.firstOption, hoptional]
      simp
    | true =>
      -- the activation bit comes first and moves the options by one
      have hanchor : (Variable.select s).handle.anchor = .bit s.id 0 :=
        anchor_handle_of_optional rfl hoptional
      rw [Select.firstOption, hoptional, if_pos rfl, List.map_singleton, hanchor,
        Bool.toNat_true, List.range_succ_eq_map, List.map_cons, List.map_map,
        List.singleton_append]
      simp only [Function.comp_def, Nat.succ_eq_add_one, Nat.add_comm 1]

theorem exists_id_of_optional {v : Variable V} (hoptional : v.optional = true) :
    ∃ id, v.id? = some id := by
  cases v with
  | root name => cases hoptional
  | flag f => exact ⟨f.id, rfl⟩
  | select s => exact ⟨s.id, rfl⟩

/-- What has no identity has no bits and no handle that needs one. -/
theorem ownHandles_eq_nil {v : Variable V} (hid : v.id? = none) :
    v.ownHandles = [] ∧ v.size = 0 := by
  cases v with
  | root name => exact ⟨rfl, rfl⟩
  | flag f => cases hid
  | select s => cases hid

end Variable

/-- The literal of a handle is the positive literal of the bit it anchors at. -/
theorem Handle.toLiteral_eq_positive {layout : Layout} {handle : Handle} {id : VarId}
    {position : Nat} {r : Reservation} (hanchor : handle.anchor = .bit id position)
    (hr : layout.find? id = some r) (hlt : r.start + position < Literal.indexBound) :
    handle.toLiteral layout = Literal.positive (r.start + position) := by
  rw [Literal.positive, Literal.new_eq_ok hlt]
  exact toLiteral_eq_ok.mpr ⟨id, position, r, hanchor, hr, hlt, rfl⟩

/-- In order, the handles of a registered variable stand for its bits. -/
theorem Variable.toLiteral_ownHandles {layout : Layout} {v : Variable V} {id : VarId}
    {r : Reservation} (hid : v.id? = some id) (hr : layout.find? id = some r)
    (narrow : r.start + v.size ≤ Literal.indexBound) :
    v.ownHandles.map (Handle.toLiteral layout) =
      (List.range' r.start v.size).map Literal.positive := by
  have hanchors := anchor_ownHandles hid
  have hlength := congrArg List.length hanchors
  rw [List.length_map, List.length_map, List.length_range] at hlength
  apply List.ext_getElem
  · rw [List.length_map, List.length_map, List.length_range', hlength]
  · intro i hi _
    rw [List.length_map] at hi
    have hanchor := List.getElem_of_eq hanchors (i := i) (by rwa [List.length_map])
    rw [List.getElem_map, List.getElem_map, List.getElem_range] at hanchor
    rw [List.getElem_map, List.getElem_map, List.getElem_range', Nat.one_mul]
    exact Handle.toLiteral_eq_positive hanchor hr (by omega)

namespace Layout

/-! ## The handles of all variables -/

/-- Variables of different identities need the bits of all of them. -/
theorem bitsNeeded_eq_sum {taken : List VarId} {vs : List (Variable V)}
    (distinct : (vs.filterMap Variable.id?).Nodup)
    (hnew : ∀ id ∈ vs.filterMap Variable.id?, id ∉ taken) :
    bitsNeeded taken vs = (vs.map Variable.size).sum := by
  induction vs generalizing taken with
  | nil => rfl
  | cons v vs ih =>
    rw [bitsNeeded, List.map_cons, List.sum_cons]
    cases hid : v.id? with
    | none =>
      rw [List.filterMap_cons_none hid] at distinct hnew
      have hrest : bitsNeeded taken vs = _ := ih distinct hnew
      simp only [hrest, (Variable.ownHandles_eq_nil hid).2, Nat.zero_add]
    | some id =>
      rw [List.filterMap_cons_some hid] at distinct hnew
      obtain ⟨hfirst, hrest⟩ := List.nodup_cons.mp distinct
      have hfree : id ∉ taken := hnew id List.mem_cons_self
      have hnew' : ∀ other ∈ vs.filterMap Variable.id?, other ∉ id :: taken := by
        intro other hother
        rw [List.mem_cons, not_or]
        exact ⟨fun heq => hfirst (heq ▸ hother), hnew other (List.mem_cons_of_mem _ hother)⟩
      simp only [if_neg hfree, ih hrest hnew']

/-- The first of several variables of new and different identities is given the next
bits, and keeps them. -/
theorem registerAll_cons_of_distinct {layout final : Layout} {v : Variable V}
    {vs : List (Variable V)} {answers : List (Except LayoutError Span)}
    (distinct : ((v :: vs).filterMap Variable.id?).Nodup)
    (hnew : ∀ id ∈ (v :: vs).filterMap Variable.id?, layout.find? id = none)
    (h : layout.registerAll (v :: vs) = .ok (final, answers)) :
    ∃ (next : Layout) (rest : List (Except LayoutError Span)),
      next.registerAll vs = .ok (final, rest) ∧ next.size = layout.size + v.size ∧
      (∀ id ∈ vs.filterMap Variable.id?, next.find? id = none) ∧
      ∀ id, v.id? = some id → final.find? id = some ⟨id, layout.size, v.size⟩ := by
  obtain ⟨answer, next, rest, hv, hrest, _⟩ := registerAll_cons_eq_ok.mp h
  refine ⟨next, rest, hrest, ?_⟩
  cases hv with
  | root hid =>
    rw [List.filterMap_cons_none hid] at hnew
    rw [(Variable.ownHandles_eq_nil hid).2]
    exact ⟨rfl, hnew, fun id hid' => by cases hid.symm.trans hid'⟩
  | listed hid hcontains =>
    rw [List.filterMap_cons_some hid] at hnew
    have hnone := hnew _ List.mem_cons_self
    rw [contains_eq_false.mpr hnone] at hcontains
    cases hcontains
  | @reserved id hid hfind =>
    rw [List.filterMap_cons_some hid] at distinct hnew
    refine ⟨rfl, ?_, ?_⟩
    · intro other hother
      have hne : id ≠ other := fun heq => (List.nodup_cons.mp distinct).1 (heq ▸ hother)
      rw [find?_extend, if_neg hne.symm, hnew other (List.mem_cons_of_mem _ hother)]
    · intro id' hid'
      cases hid.symm.trans hid'
      exact grows_of_registerAll hrest id _ (find?_extend_self layout id v.size)

/-- Each of several variables of new and different identities has as many bits as it
needs. -/
theorem exists_find?_of_distinct {layout final : Layout} {vs : List (Variable V)}
    {answers : List (Except LayoutError Span)}
    (distinct : (vs.filterMap Variable.id?).Nodup)
    (hnew : ∀ id ∈ vs.filterMap Variable.id?, layout.find? id = none)
    (h : layout.registerAll vs = .ok (final, answers)) {v : Variable V} (hv : v ∈ vs) {id : VarId}
    (hid : v.id? = some id) : ∃ r, final.find? id = some r ∧ r.length = v.size := by
  induction vs generalizing layout answers with
  | nil => cases hv
  | cons w vs ih =>
    obtain ⟨next, rest, hrest, _, hnew', hfirst⟩ := registerAll_cons_of_distinct distinct hnew h
    rcases List.mem_cons.mp hv with rfl | hv
    · exact ⟨_, hfirst id hid, rfl⟩
    · have hsub : List.Sublist (vs.filterMap Variable.id?) ((w :: vs).filterMap Variable.id?) :=
        (List.sublist_cons_self w vs).filterMap _
      exact ih (distinct.sublist hsub) hnew' hrest hv

/-- **In the order of registration, the handles stand for the bits 0, 1, 2, ….** -/
theorem map_toLiteral_ownHandles {layout final : Layout} {vs : List (Variable V)}
    {answers : List (Except LayoutError Span)} (hpacked : final.Packed)
    (narrow : final.size ≤ Literal.indexBound) (distinct : (vs.filterMap Variable.id?).Nodup)
    (hnew : ∀ id ∈ vs.filterMap Variable.id?, layout.find? id = none)
    (h : layout.registerAll vs = .ok (final, answers)) :
    (vs.flatMap Variable.ownHandles).map (Handle.toLiteral final) =
      (List.range' layout.size (vs.map Variable.size).sum).map Literal.positive := by
  induction vs generalizing layout answers with
  | nil => rfl
  | cons v vs ih =>
    obtain ⟨next, rest, hrest, hsize, hnew', hfirst⟩ :=
      registerAll_cons_of_distinct distinct hnew h
    have hsub : List.Sublist (vs.filterMap Variable.id?) ((v :: vs).filterMap Variable.id?) :=
      (List.sublist_cons_self v vs).filterMap _
    have hlater := ih (distinct.sublist hsub) hnew' hrest
    have hown : v.ownHandles.map (Handle.toLiteral final) =
        (List.range' layout.size v.size).map Literal.positive := by
      cases hid : v.id? with
      | none =>
        obtain ⟨hnil, hzero⟩ := Variable.ownHandles_eq_nil hid
        rw [hnil, hzero]
        rfl
      | some id =>
        have hr := hfirst id hid
        exact Variable.toLiteral_ownHandles hid hr (Nat.le_trans (hpacked.stop_le hr) narrow)
    rw [List.flatMap_cons, List.map_append, hown, hlater, hsize, List.map_cons, List.sum_cons,
      ← List.map_append, List.range'_append_1]

/-! ## One owner for every bit -/

/-- The positive literals of different bits are different. -/
theorem nodup_map_positive {size : Nat} (narrow : size ≤ Literal.indexBound) :
    ((List.range' 0 size).map Literal.positive).Nodup := by
  refine List.Nodup.map_on ?_ List.nodup_range'
  intro i hi j hj heq
  rw [List.mem_range'_1] at hi hj
  have hilt : i < Literal.indexBound := by omega
  have hjlt : j < Literal.indexBound := by omega
  rw [Literal.positive, Literal.positive, Literal.new_eq_ok hilt, Literal.new_eq_ok hjlt] at heq
  have hindex := congrArg Literal.index (Except.ok.inj heq)
  rwa [Literal.index_ofIndex, Literal.index_ofIndex] at hindex

/-- What the bits of a layout stand for in which the variables `vs` are registered. -/
structure Owned (vs : List (Variable V)) (layout : Layout) : Prop where
  /-- No two of the handles with a bit of their own are the same. -/
  nodup : (vs.flatMap Variable.ownHandles).Nodup
  /-- Every bit has its literal from exactly one of them. -/
  one_owner : ∀ k < layout.size, ∃ l, Literal.positive k = .ok l ∧
    ∃! h, h ∈ vs.flatMap Variable.ownHandles ∧ h.toLiteral layout = .ok l
  /-- An optional variable stands for the first bit reserved for it. -/
  of_optional : ∀ v ∈ vs, v.optional = true → ∃ id span, v.id? = some id ∧
    layout.rangeOf id = .ok span ∧ span.start < layout.size ∧
    v.toLiteral layout = Literal.positive span.start
  /-- An option stands for the bit at its place, behind the activation bit if there is
  one. -/
  of_option : ∀ s, .select s ∈ vs → ∀ o ∈ s.options, ∃ span, layout.rangeOf s.id = .ok span ∧
    span.start + o.index + s.optional.toNat < layout.size ∧
    o.toLiteral layout = Literal.positive (span.start + o.index + s.optional.toNat)

/-- **Every bit has exactly one owner.** Variables of different identities, nested under
whatever, are registered in some order, and there are literals for all of their bits.
Then each bit has its literal from exactly one of the optional variables and the
options. -/
theorem registerAll_owned (vs : List (Variable V)) (distinct : (vs.filterMap Variable.id?).Nodup)
    (narrow : (vs.map Variable.size).sum ≤ Literal.indexBound) :
    ∃ layout answers, Layout.empty.registerAll vs = .ok (layout, answers) ∧
      layout.size = (vs.map Variable.size).sum ∧ layout.Owned vs := by
  have hneeded : bitsNeeded [] vs = (vs.map Variable.size).sum :=
    bitsNeeded_eq_sum distinct fun _ _ => List.not_mem_nil
  have hbound : Literal.indexBound < Address.bound := by decide
  obtain ⟨layout, answers, hall, hsize⟩ := exists_registerAll_empty vs (by omega)
  rw [hneeded] at hsize
  rw [← hsize] at narrow
  have hpacked := packed_of_registerAll .empty hall
  have hliterals := map_toLiteral_ownHandles hpacked narrow distinct (fun _ _ => rfl) hall
  rw [← hsize] at hliterals
  have hnodup : ((vs.flatMap Variable.ownHandles).map (Handle.toLiteral layout)).Nodup := by
    rw [hliterals]
    exact nodup_map_positive narrow
  refine ⟨layout, answers, hall, hsize, hnodup.of_map, ?_, ?_, ?_⟩
  · intro k hk
    have hl : Literal.positive k = .ok (Literal.ofIndex k true (by omega)) :=
      Literal.new_eq_ok (by omega)
    have hmem : Literal.positive k ∈ (List.range' 0 layout.size).map Literal.positive :=
      List.mem_map_of_mem (List.mem_range'_1.mpr ⟨Nat.zero_le k, by omega⟩)
    -- the bit is one of those that the handles stand for, in order
    have hmem : Literal.positive k ∈
        (vs.flatMap Variable.ownHandles).map (Handle.toLiteral layout) := hliterals ▸ hmem
    obtain ⟨h, hown, hliteral⟩ := List.mem_map.mp hmem
    refine ⟨_, hl, h, ⟨hown, hliteral.trans hl⟩, ?_⟩
    rintro h' ⟨hown', hliteral'⟩
    exact List.inj_on_of_nodup_map hnodup hown' hown (hliteral'.trans (hliteral.trans hl).symm)
  · intro v hv hoptional
    obtain ⟨id, hid⟩ := Variable.exists_id_of_optional hoptional
    obtain ⟨r, hr, hlength⟩ := exists_find?_of_distinct distinct (fun _ _ => rfl) hall hv hid
    have hpos := Variable.size_pos_of_optional hoptional
    have hstop := hpacked.stop_le hr
    refine ⟨id, r.span, hid, rangeOf_eq_ok.mpr ⟨r, hr, rfl⟩, by show r.start < _; omega, ?_⟩
    exact Handle.toLiteral_eq_positive (Variable.anchor_handle_of_optional hid hoptional) hr
      (by omega)
  · intro s hs o ho
    obtain ⟨r, hr, hlength⟩ := exists_find?_of_distinct distinct (fun _ _ => rfl) hall hs rfl
    obtain ⟨_, hindex, _⟩ := Select.mem_options ho
    have hstop := hpacked.stop_le hr
    have hlength : r.length = s.domain.size + s.optional.toNat := hlength
    have hplace : r.span.start + o.index + s.optional.toNat =
        r.start + (s.firstOption + o.ref.index) := by
      show r.start + o.ref.index + s.optional.toNat = r.start + (s.optional.toNat + o.ref.index)
      omega
    have hlt : r.start + (s.firstOption + o.ref.index) < layout.size := by
      rw [Select.firstOption]
      omega
    refine ⟨r.span, rangeOf_eq_ok.mpr ⟨r, hr, rfl⟩, hplace ▸ hlt, ?_⟩
    rw [hplace]
    exact Handle.toLiteral_eq_positive (Select.anchor_option ho) hr (by omega)

/-- A flag and two selects, nested under each other and under what is not there. -/
def medley : List (Variable Nat) :=
  [.select ⟨⟨8⟩, "extras", .var (.optional ⟨5⟩), .multiple, false,
     ⟨[3, 4, 5], by decide, by decide⟩, .inr (by decide)⟩,
   .flag ⟨⟨5⟩, "gift", .option ⟨.optional ⟨2⟩, 1⟩, 7⟩,
   .select ⟨⟨2⟩, "size", .option ⟨.optional ⟨9⟩, 3⟩, .nominal, true, Parcel.size.domain, .inl rfl⟩]

theorem medley_owned :
    (medley.filterMap Variable.id?).Nodup ∧
    (medley.map Variable.size).sum ≤ Literal.indexBound ∧
    ∃ layout answers, Layout.empty.registerAll medley = .ok (layout, answers) ∧
      layout.size = (medley.map Variable.size).sum ∧ layout.Owned medley :=
  ⟨by decide, by decide, registerAll_owned medley (by decide) (by decide)⟩

end Layout

end ChoiceTree
