import Mathlib
import ChoiceTree.Proofs.Run

/-!
# Registering one variable after the other

What a layout looks like after any sequence of registrations, started from the
empty one. Variables may come up again, and roots may be among them.

* `Layout.InStep` — the list, the directory and the size of a layout say the same:
  a slot is in the directory exactly if the variable is in that slot of the list,
  and the listed ranges follow each other up to the size;
* `Layout.Registers` — what one registration can come to: the root is given the
  empty range at the end, a variable that is listed is refused, and any other is
  given the bits after the last one. Whatever it comes to, the three stay in step
  (`Registers.inStep`);
* `Layout.registerAll`, `bitsNeeded` — a whole sequence, which only faults if it
  asks for more bits than there are addresses, and keeps them in step
  (`inStep_of_registerAll`);
* `Layout.Partition`, `Layout.registerAll_partitions` — the ranges that are
  listed follow each other without a gap, and every way of asking for them
  agrees with the list.
-/

namespace ChoiceTree

variable {V : Type} [BEq V]

/-- The ranges follow each other from the first number to the second. -/
def Consecutive : Nat → List (VarId × Span) → Nat → Prop
  | start, [], stop => start = stop
  | start, (_, span) :: rest, stop =>
      span.start = start ∧ span.start ≤ span.stop ∧ Consecutive span.stop rest stop

theorem Consecutive.concat {start middle stop : Nat} {ranges : List (VarId × Span)}
    (h : Consecutive start ranges middle) (hle : middle ≤ stop) (id : VarId) :
    Consecutive start (ranges ++ [(id, ⟨middle, stop⟩)]) stop := by
  induction ranges generalizing start with
  | nil => exact ⟨h.symm, hle, rfl⟩
  | cons entry rest ih =>
    obtain ⟨hstart, hspan, hrest⟩ := h
    exact ⟨hstart, hspan, ih hrest⟩

namespace Layout

/-! ## The list, the directory and the size -/

theorem ranges_extend (layout : Layout) (id : VarId) (length : Nat) :
    (layout.extend id length).ranges =
      layout.ranges ++ [(id, ⟨layout.size, layout.size + length⟩)] := by
  rw [ranges, ranges, extend, List.map_append]
  rfl

/-- The three things that a layout keeps beside each other say the same. -/
structure InStep (layout : Layout) : Prop where
  /-- The directory has the slot of each listed variable, and no others. -/
  slot_iff : ∀ id slot, layout.directory.get? id = some slot ↔
    layout.reservations[slot]?.map (·.id) = some id
  /-- The listed ranges have no gap and no overlap, and the size is where they end. -/
  consecutive : Consecutive 0 layout.ranges layout.size

namespace InStep

theorem empty : InStep .empty where
  slot_iff _ _ := iff_of_false nofun nofun
  consecutive := rfl

/-- A new variable is entered in the directory, in the list and in the size together. -/
theorem extend {layout : Layout} (h : layout.InStep) {id : VarId}
    (hnew : layout.find? id = none) (length : Nat) : (layout.extend id length).InStep where
  slot_iff other slot := by
    have hunknown := find?_eq_none.mp hnew
    simp only [Layout.extend, Directory.get?_insert]
    rcases Nat.lt_trichotomy slot layout.reservations.length with hold | hlast | hbehind
    · -- the slots that there were still have what they had
      rw [List.getElem?_append_left hold, ← h.slot_iff]
      by_cases hother : other = id
      · rw [if_pos hother, hother, hunknown]
        exact iff_of_false (fun heq => Nat.ne_of_gt hold (Option.some.inj heq))
          (Option.some_ne_none slot).symm
      · rw [if_neg hother]
    · rw [hlast, List.getElem?_concat_length, Option.map_some, Option.some.injEq]
      by_cases hother : other = id
      · rw [if_pos hother, hother]
        exact iff_of_true rfl rfl
      · -- no directory has a slot behind the list
        rw [if_neg hother]
        exact iff_of_false (fun heq => Nat.lt_irrefl _ (layout.inside _ _ heq)) (Ne.symm hother)
    · have hnothing : layout.reservations.length + 1 ≤ slot := hbehind
      rw [List.getElem?_eq_none (by simpa using hnothing), Option.map_none]
      refine iff_of_false (fun heq => ?_) (Option.some_ne_none other).symm
      split at heq
      · exact Nat.ne_of_lt hbehind (Option.some.inj heq)
      · exact Nat.lt_asymm hbehind (layout.inside _ _ heq)
  consecutive := by
    rw [ranges_extend]
    exact h.consecutive.concat (Nat.le_add_right _ _) _

variable {layout : Layout} (h : layout.InStep)

include h

/-- What is found through the directory is what the list has for the variable. -/
theorem find?_eq_some {id : VarId} {r : Reservation} :
    layout.find? id = some r ↔ r ∈ layout.reservations ∧ r.id = id := by
  rw [Layout.find?_eq_some, List.mem_iff_getElem?]
  constructor
  · rintro ⟨slot, hslot, hr⟩
    have hid := (h.slot_iff id slot).mp hslot
    rw [hr] at hid
    exact ⟨⟨slot, hr⟩, Option.some.inj hid⟩
  · rintro ⟨⟨slot, hr⟩, rfl⟩
    exact ⟨slot, (h.slot_iff r.id slot).mpr (by rw [hr, Option.map_some]), hr⟩

theorem mem_ranges {id : VarId} {span : Span} :
    (id, span) ∈ layout.ranges ↔ ∃ r, layout.find? id = some r ∧ r.span = span := by
  simp only [ranges, List.mem_map, h.find?_eq_some, Prod.mk.injEq, and_assoc]

/-- The variables of the directory are those of the list. -/
theorem contains_iff {id : VarId} :
    layout.contains id = true ↔ id ∈ layout.ranges.map Prod.fst := by
  rw [← Bool.not_eq_false, contains_eq_false, ← ne_eq, Option.ne_none_iff_exists']
  simp only [h.find?_eq_some, ranges, List.map_map, List.mem_map, Function.comp_apply]

theorem find?_eq_none {id : VarId} :
    layout.find? id = none ↔ id ∉ layout.ranges.map Prod.fst := by
  rw [← h.contains_iff, Bool.not_eq_true, contains_eq_false]

/-- No variable is in two slots: the directory has only one for it. -/
theorem nodup_ids : (layout.ranges.map Prod.fst).Nodup := by
  have hids : layout.ranges.map Prod.fst = layout.reservations.map (·.id) := List.map_map
  rw [hids, List.nodup_iff_getElem?_ne_getElem?]
  intro i j hij hj heq
  rw [List.length_map] at hj
  have hlast : (layout.reservations.map (·.id))[j]? = some layout.reservations[j].id := by
    rw [List.getElem?_map, List.getElem?_eq_getElem hj, Option.map_some]
  have hfirst := heq.trans hlast
  rw [List.getElem?_map] at hfirst hlast
  have hslots := ((h.slot_iff _ i).mpr hfirst).symm.trans ((h.slot_iff _ j).mpr hlast)
  exact Nat.ne_of_lt hij (Option.some.inj hslots)

end InStep

/-- A layout that has grown from the empty one is in step. -/
theorem Packed.inStep {layout : Layout} (h : layout.Packed) : layout.InStep := by
  induction h with
  | empty => exact .empty
  | extend _ hnew _ ih => exact ih.extend hnew _

theorem rangeOf_eq_ok {layout : Layout} {id : VarId} {span : Span} :
    layout.rangeOf id = .ok span ↔ ∃ r, layout.find? id = some r ∧ r.span = span := by
  rw [rangeOf]
  cases layout.find? id with
  | none => simp
  | some r => simp

/-! ## One registration -/

/-- What registering a variable can come to. -/
inductive Registers (layout : Layout) (v : Variable V) :
    Except LayoutError Span → Layout → Prop
  | root : v.id? = none → Registers layout v (.ok ⟨layout.size, layout.size⟩) layout
  | listed {id : VarId} : v.id? = some id → layout.contains id = true →
      Registers layout v (.error (.alreadyRegistered id)) layout
  | reserved {id : VarId} : v.id? = some id → layout.find? id = none →
      layout.size + v.size < Address.bound →
      Registers layout v (.ok ⟨layout.size, layout.size + v.size⟩) (layout.extend id v.size)

/-- **Everything a registration can come to**, and each of it does. -/
theorem register_eq_ok {layout layout' : Layout} {v : Variable V}
    {answer : Except LayoutError Span} :
    layout.register v = .ok (layout', answer) ↔ layout.Registers v answer layout' := by
  cases hid : v.id? with
  | none =>
    rw [register, hid]
    constructor
    · rintro ⟨⟩
      exact .root hid
    · intro h
      cases h with
      | root => rfl
      | listed hid' => cases hid.symm.trans hid'
      | reserved hid' => cases hid.symm.trans hid'
  | some id =>
    rw [register_eq_reserve hid]
    constructor
    · intro h
      cases answer with
      | error cause =>
        obtain ⟨hcontains, rfl, rfl⟩ := reserve_eq_error.mp h
        exact .listed hid hcontains
      | ok span =>
        obtain ⟨hnew, hroom, rfl, rfl⟩ := reserve_eq_ok.mp h
        exact .reserved hid hnew hroom
    · intro h
      cases h with
      | root hid' => cases hid.symm.trans hid'
      | listed hid' hcontains =>
        cases hid.symm.trans hid'
        exact reserve_eq_error.mpr ⟨hcontains, rfl, rfl⟩
      | reserved hid' hnew hroom =>
        cases hid.symm.trans hid'
        exact reserve_eq_ok.mpr ⟨hnew, hroom, rfl, rfl⟩

namespace Registers

variable {layout layout' : Layout} {v : Variable V} {answer : Except LayoutError Span}

/-- What holds of a layout holds after a registration if reserving bits for a new variable
keeps it: nothing else that a registration can come to changes the layout. -/
theorem keeps {P : Layout → Prop} (h : layout.Registers v answer layout') (hlayout : P layout)
    (hreserve : ∀ id, layout.find? id = none → layout.size + v.size < Address.bound →
      P (layout.extend id v.size)) : P layout' := by
  cases h with
  | root => exact hlayout
  | listed => exact hlayout
  | reserved _ hnew hroom => exact hreserve _ hnew hroom

theorem grows (h : layout.Registers v answer layout') : layout.Grows layout' :=
  h.keeps (Grows.refl layout) fun _ hnew _ => grows_extend hnew v.size

/-- **Every registration keeps list, directory and size in step.** -/
theorem inStep (hstep : layout.InStep) (h : layout.Registers v answer layout') :
    layout'.InStep :=
  h.keeps hstep fun _ hnew _ => hstep.extend hnew v.size

theorem packed (hpacked : layout.Packed) (h : layout.Registers v answer layout') :
    layout'.Packed :=
  h.keeps hpacked fun _ hnew hroom => hpacked.extend hnew hroom

end Registers

/-! ## A sequence of registrations -/

/-- Registers the variables one after the other, and lists the answers. -/
def registerAll (layout : Layout) :
    List (Variable V) → Except Fault (Layout × List (Except LayoutError Span))
  | [] => .ok (layout, [])
  | v :: vs => do
      let (layout, answer) ← layout.register v
      let (layout, answers) ← layout.registerAll vs
      return (layout, answer :: answers)

theorem registerAll_cons_eq_ok {layout final : Layout} {v : Variable V} {vs : List (Variable V)}
    {answers : List (Except LayoutError Span)} :
    layout.registerAll (v :: vs) = .ok (final, answers) ↔
      ∃ answer layout' rest, layout.Registers v answer layout' ∧
        layout'.registerAll vs = .ok (final, rest) ∧ answers = answer :: rest := by
  rw [registerAll, bind_eq_ok]
  constructor
  · rintro ⟨⟨layout', answer⟩, hfirst, h⟩
    obtain ⟨⟨_, rest⟩, hrest, h⟩ := bind_eq_ok.mp h
    cases h
    exact ⟨answer, layout', rest, register_eq_ok.mp hfirst, hrest, rfl⟩
  · rintro ⟨answer, layout', rest, hfirst, hrest, rfl⟩
    exact ⟨_, register_eq_ok.mpr hfirst, bind_eq_ok.mpr ⟨_, hrest, rfl⟩⟩

/-- A sequence in two parts is the one part after the other. -/
theorem registerAll_append_eq_ok {layout final : Layout} {before after : List (Variable V)}
    {answers : List (Except LayoutError Span)} :
    layout.registerAll (before ++ after) = .ok (final, answers) ↔
      ∃ middle first second, layout.registerAll before = .ok (middle, first) ∧
        middle.registerAll after = .ok (final, second) ∧ answers = first ++ second := by
  induction before generalizing layout answers with
  | nil =>
    constructor
    · intro h
      exact ⟨layout, [], answers, rfl, h, rfl⟩
    · rintro ⟨middle, first, second, hfirst, hsecond, rfl⟩
      cases hfirst
      exact hsecond
  | cons v before ih =>
    simp only [List.cons_append, registerAll_cons_eq_ok, ih]
    constructor
    · rintro ⟨answer, next, _, hv, ⟨middle, first, second, hfirst, hsecond, rfl⟩, rfl⟩
      exact ⟨middle, answer :: first, second, ⟨answer, next, first, hv, hfirst, rfl⟩, hsecond, rfl⟩
    · rintro ⟨middle, _, second, ⟨answer, next, first, hv, hfirst, rfl⟩, hsecond, rfl⟩
      exact ⟨answer, next, first ++ second, hv, ⟨middle, first, second, hfirst, hsecond, rfl⟩, rfl⟩

/-- Whatever every registration keeps, a sequence keeps. -/
theorem registerAll_induction {P : Layout → Prop}
    (hstep : ∀ {layout layout' : Layout} {v : Variable V} {answer : Except LayoutError Span},
      layout.Registers v answer layout' → P layout → P layout')
    {layout final : Layout} {vs : List (Variable V)} {answers : List (Except LayoutError Span)}
    (h : layout.registerAll vs = .ok (final, answers)) (hstart : P layout) : P final := by
  induction vs generalizing layout answers with
  | nil =>
    cases h
    exact hstart
  | cons v vs ih =>
    obtain ⟨answer, next, rest, hv, hrest, _⟩ := registerAll_cons_eq_ok.mp h
    exact ih hrest (hstep hv hstart)

theorem inStep_of_registerAll {layout final : Layout} {vs : List (Variable V)}
    {answers : List (Except LayoutError Span)} (hstep : layout.InStep)
    (h : layout.registerAll vs = .ok (final, answers)) : final.InStep :=
  registerAll_induction (fun hv hlayout => hv.inStep hlayout) h hstep

theorem packed_of_registerAll {layout final : Layout} {vs : List (Variable V)}
    {answers : List (Except LayoutError Span)} (hpacked : layout.Packed)
    (h : layout.registerAll vs = .ok (final, answers)) : final.Packed :=
  registerAll_induction (fun hv hlayout => hv.packed hlayout) h hpacked

theorem grows_of_registerAll {layout final : Layout} {vs : List (Variable V)}
    {answers : List (Except LayoutError Span)}
    (h : layout.registerAll vs = .ok (final, answers)) : layout.Grows final :=
  registerAll_induction (P := layout.Grows) (fun hv hgrows => hgrows.trans hv.grows) h
    (Grows.refl layout)

theorem length_answers {layout final : Layout} {vs : List (Variable V)}
    {answers : List (Except LayoutError Span)}
    (h : layout.registerAll vs = .ok (final, answers)) : answers.length = vs.length := by
  induction vs generalizing layout answers with
  | nil =>
    cases h
    rfl
  | cons v vs ih =>
    obtain ⟨answer, next, rest, _, hrest, rfl⟩ := registerAll_cons_eq_ok.mp h
    rw [List.length_cons, List.length_cons, ih hrest]

/-- The number of bits that it takes to register the variables where those listed in
`taken` have theirs already: each identity counts the first time it comes up. -/
def bitsNeeded (taken : List VarId) : List (Variable V) → Nat
  | [] => 0
  | v :: vs =>
    match v.id? with
    | none => bitsNeeded taken vs
    | some id =>
      if id ∈ taken then bitsNeeded taken vs else v.size + bitsNeeded (id :: taken) vs

/-- As long as there are addresses left, a sequence of registrations is served, and
takes as many bits as it needs. -/
theorem exists_registerAll {layout : Layout} {taken : List VarId} {vs : List (Variable V)}
    (htaken : ∀ id, id ∈ taken ↔ layout.contains id = true)
    (room : layout.size + bitsNeeded taken vs < Address.bound) :
    ∃ final answers, layout.registerAll vs = .ok (final, answers) ∧
      final.size = layout.size + bitsNeeded taken vs := by
  induction vs generalizing layout taken with
  | nil => exact ⟨layout, [], rfl, rfl⟩
  | cons v vs ih =>
    rw [bitsNeeded] at room ⊢
    cases hid : v.id? with
    | none =>
      simp only [hid] at room ⊢
      obtain ⟨final, answers, hrest, hsize⟩ := ih htaken room
      exact ⟨final, _, registerAll_cons_eq_ok.mpr ⟨_, _, _, .root hid, hrest, rfl⟩, hsize⟩
    | some id =>
      simp only [hid] at room ⊢
      by_cases hmem : id ∈ taken
      · rw [if_pos hmem] at room ⊢
        obtain ⟨final, answers, hrest, hsize⟩ := ih htaken room
        have hlisted := (htaken id).mp hmem
        exact ⟨final, _, registerAll_cons_eq_ok.mpr ⟨_, _, _, .listed hid hlisted, hrest, rfl⟩,
          hsize⟩
      · rw [if_neg hmem] at room ⊢
        have hnew : layout.find? id = none := by
          rwa [← contains_eq_false, ← Bool.not_eq_true, ← htaken]
        -- afterwards the new variable is listed too
        have htaken' : ∀ other, other ∈ id :: taken ↔
            (layout.extend id v.size).contains other = true := by
          intro other
          rw [List.mem_cons, htaken, contains_extend]
        have hroom : layout.size + v.size < Address.bound := by omega
        obtain ⟨final, answers, hrest, hsize⟩ :=
          @ih (layout.extend id v.size) (id :: taken) htaken' (by rw [size_extend]; omega)
        refine ⟨final, _, registerAll_cons_eq_ok.mpr
          ⟨_, _, _, .reserved hid hnew hroom, hrest, rfl⟩, ?_⟩
        rw [hsize, size_extend, Nat.add_assoc]

/-- From the empty layout, a sequence takes as many bits as it needs. -/
theorem exists_registerAll_empty (vs : List (Variable V))
    (room : bitsNeeded [] vs < Address.bound) :
    ∃ final answers, Layout.empty.registerAll vs = .ok (final, answers) ∧
      final.size = bitsNeeded [] vs := by
  have hempty : Layout.empty.size + bitsNeeded [] vs = bitsNeeded [] vs := Nat.zero_add _
  have htaken : ∀ id, id ∈ ([] : List VarId) ↔ Layout.empty.contains id = true :=
    fun _ => iff_of_false List.not_mem_nil Bool.false_ne_true
  rw [← hempty] at room ⊢
  exact exists_registerAll htaken room

/-- The variables that were given bits, with the number of bits of each. -/
def granted : List (Variable V) → List (Except LayoutError Span) → List (VarId × Nat)
  | [], _ => []
  | _ :: _, [] => []
  | v :: vs, .ok _ :: answers => (v.id?.map fun id => (id, v.size)).toList ++ granted vs answers
  | _ :: vs, .error _ :: answers => granted vs answers

/-- The variables that are given bits are listed behind the others, in order, each with
as many bits as it needs. -/
theorem listed_of_registerAll {layout final : Layout} {vs : List (Variable V)}
    {answers : List (Except LayoutError Span)}
    (h : layout.registerAll vs = .ok (final, answers)) :
    final.ranges.map (fun entry => (entry.1, entry.2.stop - entry.2.start)) =
      layout.ranges.map (fun entry => (entry.1, entry.2.stop - entry.2.start)) ++
        granted vs answers := by
  induction vs generalizing layout answers with
  | nil =>
    cases h
    rw [granted, List.append_nil]
  | cons v vs ih =>
    obtain ⟨answer, next, rest, hv, hrest, rfl⟩ := registerAll_cons_eq_ok.mp h
    rw [ih hrest]
    cases hv with
    | root hid => rw [granted, hid, Option.map_none, Option.toList_none, List.nil_append]
    | listed => rw [granted]
    | reserved hid =>
      rw [granted, hid, ranges_extend, List.map_append, List.map_singleton, Nat.add_sub_cancel_left,
        List.append_assoc]
      rfl

/-! ## What every sequence of registrations leaves behind -/

/-- What one registration comes to in the middle of a sequence: from the layout
`earlier` to the layout `later`, where `final` is the one at the end. -/
structure Registration (earlier later final : Layout) (v : Variable V)
    (answer : Except LayoutError Span) : Prop where
  /-- The root is given nothing. -/
  root : v.id? = none → answer = .ok ⟨earlier.size, earlier.size⟩ ∧ later = earlier
  refused_iff : ∀ id, v.id? = some id →
    (answer = .error (.alreadyRegistered id) ↔ id ∈ earlier.ranges.map Prod.fst)
  unchanged : ∀ id, v.id? = some id → id ∈ earlier.ranges.map Prod.fst → later = earlier
  /-- What a new variable is given is what is reported for it ever after. -/
  reported : ∀ id, v.id? = some id → id ∉ earlier.ranges.map Prod.fst →
    ∃ span, answer = .ok span ∧ later.rangeOf id = .ok span ∧ final.rangeOf id = .ok span

/-- What registering `vs` one after the other leaves behind if these are the answers. -/
structure Partition (vs : List (Variable V)) (answers : List (Except LayoutError Span))
    (layout : Layout) : Prop where
  inStep : layout.InStep
  /-- The list has the variables that were given bits, in that order, each with as many
  bits as it needs. -/
  listed : layout.ranges.map (fun entry => (entry.1, entry.2.stop - entry.2.start)) =
    granted vs answers
  once : (layout.ranges.map Prod.fst).Nodup
  /-- There is no gap and no overlap. -/
  consecutive : Consecutive 0 layout.ranges layout.size
  size_eq : layout.size = bitsNeeded [] vs
  count_eq : layout.count = layout.ranges.length
  contains_iff : ∀ id, layout.contains id = true ↔ ∃ span, (id, span) ∈ layout.ranges
  startOf_iff : ∀ id start,
    layout.startOf id = .ok start ↔ ∃ stop, (id, ⟨start, stop⟩) ∈ layout.ranges
  rangeOf_iff : ∀ id span, layout.rangeOf id = .ok span ↔ (id, span) ∈ layout.ranges
  /-- What is not listed is nowhere. -/
  missing : ∀ id, (∀ span, (id, span) ∉ layout.ranges) →
    layout.startOf id = .error (.notRegistered id) ∧
      layout.rangeOf id = .error (.notRegistered id)
  registration : ∀ before v after, vs = before ++ v :: after →
    ∃ earlier later first answer, Layout.empty.registerAll before = .ok (earlier, first) ∧
      earlier.register v = .ok (later, answer) ∧ answers[before.length]? = some answer ∧
      Registration earlier later layout v answer

theorem registration_of_registers {earlier later final : Layout} {v : Variable V}
    {answer : Except LayoutError Span} (hstep : earlier.InStep)
    (h : earlier.Registers v answer later) (hgrows : later.Grows final) :
    Registration earlier later final v answer := by
  constructor
  · intro hid
    cases h with
    | root => exact ⟨rfl, rfl⟩
    | listed hid' => cases hid.symm.trans hid'
    | reserved hid' => cases hid.symm.trans hid'
  · intro id hid
    rw [← hstep.contains_iff]
    cases h with
    | root hid' => cases hid.symm.trans hid'
    | listed hid' hcontains =>
      cases hid.symm.trans hid'
      exact iff_of_true rfl hcontains
    | reserved hid' hnew =>
      cases hid.symm.trans hid'
      rw [contains_eq_false.mpr hnew]
      exact iff_of_false nofun nofun
  · intro id hid hlisted
    cases h with
    | root => rfl
    | listed => rfl
    | reserved hid' hnew =>
      cases hid.symm.trans hid'
      exact absurd hlisted (hstep.find?_eq_none.mp hnew)
  · intro id hid hnot
    cases h with
    | root hid' => cases hid.symm.trans hid'
    | listed hid' hcontains =>
      cases hid.symm.trans hid'
      exact absurd (hstep.contains_iff.mp hcontains) hnot
    | reserved hid' hnew =>
      cases hid.symm.trans hid'
      have hfind := find?_extend_self earlier id v.size
      exact ⟨_, rfl, rangeOf_eq_ok.mpr ⟨_, hfind, rfl⟩,
        rangeOf_eq_ok.mpr ⟨_, hgrows _ _ hfind, rfl⟩⟩

/-- **Registering partitions the bit space.** Whatever is registered, in whatever order
and however often, as long as there are addresses for it: every registration is
answered, the ranges that are listed follow each other from the first bit to the
last, and everything else that can be asked agrees with the list. -/
theorem registerAll_partitions (vs : List (Variable V)) (room : bitsNeeded [] vs < Address.bound) :
    ∃ layout answers, Layout.empty.registerAll vs = .ok (layout, answers) ∧
      answers.length = vs.length ∧ Partition vs answers layout := by
  obtain ⟨layout, answers, hall, hsize⟩ := exists_registerAll_empty vs room
  have hstep := inStep_of_registerAll .empty hall
  refine ⟨layout, answers, hall, length_answers hall, ?_⟩
  constructor
  · exact hstep
  · exact listed_of_registerAll hall
  · exact hstep.nodup_ids
  · exact hstep.consecutive
  · exact hsize
  · rw [count, ranges, List.length_map]
  · intro id
    rw [hstep.contains_iff, List.mem_map]
    simp
  · intro id start
    simp only [startOf_eq_ok, hstep.mem_ranges]
    constructor
    · rintro ⟨r, hr, rfl⟩
      exact ⟨_, r, hr, rfl⟩
    · rintro ⟨stop, r, hr, hspan⟩
      exact ⟨r, hr, congrArg Span.start hspan⟩
  · intro id span
    rw [rangeOf_eq_ok, hstep.mem_ranges]
  · intro id hmissing
    have hnone : layout.find? id = none := by
      rw [hstep.find?_eq_none, List.mem_map]
      rintro ⟨⟨_, span⟩, hmem, rfl⟩
      exact hmissing span hmem
    rw [startOf, rangeOf, hnone]
    exact ⟨rfl, rfl⟩
  · rintro before v after rfl
    obtain ⟨earlier, first, second, hbefore, hafter, rfl⟩ := registerAll_append_eq_ok.mp hall
    obtain ⟨answer, later, rest, hv, hrest, rfl⟩ := registerAll_cons_eq_ok.mp hafter
    refine ⟨earlier, later, first, answer, hbefore, register_eq_ok.mpr hv, ?_,
      registration_of_registers (inStep_of_registerAll .empty hbefore) hv
        (grows_of_registerAll hrest)⟩
    rw [← length_answers hbefore, List.getElem?_append_right (Nat.le_refl _), Nat.sub_self]
    rfl

/-- Two identities, both of which come up again, and the root in between. -/
def returns : List (Variable Nat) :=
  [.root "parcel",
   .select ⟨⟨4⟩, "size", .root, .nominal, true, Parcel.size.domain, .inl rfl⟩,
   .flag ⟨⟨4⟩, "gift", .root, 7⟩,
   .flag ⟨⟨2⟩, "gift", .root, 7⟩,
   .root "parcel",
   .flag ⟨⟨2⟩, "gift", .root, 7⟩]

theorem returns_partition :
    bitsNeeded [] returns < Address.bound ∧
    ∃ layout answers, Layout.empty.registerAll returns = .ok (layout, answers) ∧
      answers.length = returns.length ∧ Partition returns answers layout :=
  ⟨by decide, registerAll_partitions returns (by decide)⟩

end Layout

end ChoiceTree
