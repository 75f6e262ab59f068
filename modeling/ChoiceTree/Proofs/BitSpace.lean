import Mathlib
import ChoiceTree.Proofs.Valuation
import ChoiceTree.Variable

/-!
# The bit space of a layout

A layout only ever grows at its end. `Layout.Packed` is what every layout is
that has grown from the empty one, and says where the bits are:

* the reservations are disjoint (`Packed.eq_of_mem`) and leave no bit out
  (`Packed.exists_owner`);
* what is registered stays where it is (`Layout.Grows`), and so does everything
  that is computed from it: literals, guards and constraints.

An anchor is active under truth values if its bit is set (`Anchor.active`). That
is what the literal of a handle says (`Handle.holds_of_toLiteral`), and what a
guard asks for (`Handle.all_holds_of_guard`).
-/

namespace ChoiceTree

namespace Layout

@[simp] theorem size_extend (layout : Layout) (id : VarId) (length : Nat) :
    (layout.extend id length).size = layout.size + length := rfl

/-! ## Looking up -/

/-- What is found is in the slot that the directory has for the variable. -/
theorem find?_eq_some {layout : Layout} {id : VarId} {r : Reservation} :
    layout.find? id = some r ↔
      ∃ slot, layout.directory.get? id = some slot ∧ layout.reservations[slot]? = some r := by
  rw [find?]
  split
  · next slot h => simp [h, layout.inside id slot h]
  · next h => simp [h]

theorem find?_eq_none {layout : Layout} {id : VarId} :
    layout.find? id = none ↔ layout.directory.get? id = none := by
  rw [find?]
  split
  · next slot h => simp [h]
  · next h => simp [h]

theorem contains_eq_false {layout : Layout} {id : VarId} :
    layout.contains id = false ↔ layout.find? id = none := by
  rw [find?_eq_none, contains, Directory.contains, Option.isSome_eq_false_iff,
    Option.isNone_iff_eq_none]

/-- The slot of a new reservation is behind the others, which stay in theirs. -/
theorem find?_extend (layout : Layout) (id other : VarId) (length : Nat) :
    (layout.extend id length).find? other =
      if other = id then some ⟨id, layout.size, length⟩ else layout.find? other := by
  apply Option.ext
  intro r
  rw [find?_eq_some]
  simp only [extend, Directory.get?_insert]
  by_cases h : other = id
  · simp [h]
  · rw [if_neg h, if_neg h, find?_eq_some]
    apply exists_congr
    intro slot
    apply and_congr_right
    intro hslot
    rw [List.getElem?_append_left (layout.inside other slot hslot)]

theorem find?_extend_self (layout : Layout) (id : VarId) (length : Nat) :
    (layout.extend id length).find? id = some ⟨id, layout.size, length⟩ := by
  rw [find?_extend, if_pos rfl]

theorem contains_extend {layout : Layout} {id other : VarId} {length : Nat} :
    (layout.extend id length).contains other = true ↔
      other = id ∨ layout.contains other = true := by
  rw [contains, extend, Directory.contains, Directory.get?_insert, contains, Directory.contains]
  split
  · next heq => exact iff_of_true rfl (.inl heq)
  · next hne => exact (or_iff_right hne).symm

/-- A reservation of the extended layout is old or new. -/
theorem find?_extend_cases {layout : Layout} {id other : VarId} {length : Nat} {r : Reservation}
    (h : (layout.extend id length).find? other = some r) :
    layout.find? other = some r ∨ other = id ∧ r = ⟨id, layout.size, length⟩ := by
  rw [find?_extend] at h
  split at h
  · next heq => exact .inr ⟨heq, (Option.some.inj h).symm⟩
  · exact .inl h

/-! ## Reserving -/

/-- Reserving bits succeeds for a new variable as long as there are addresses
left, and extends the layout. -/
theorem reserve_eq_ok {layout layout' : Layout} {id : VarId} {length : Nat} {span : Span} :
    layout.reserve id length = .ok (layout', .ok span) ↔
      layout.find? id = none ∧ layout.size + length < Address.bound ∧
        layout' = layout.extend id length ∧ span = ⟨layout.size, layout.size + length⟩ := by
  rw [reserve, ← contains_eq_false]
  cases hcontains : layout.contains id with
  | true => simp
  | false =>
    rw [if_neg Bool.false_ne_true, bind_eq_ok, Address.add, Address.check]
    constructor
    · intro h
      obtain ⟨size, hsize, h⟩ := h
      split at hsize
      · next hlt =>
        cases hsize
        cases h
        exact ⟨rfl, hlt, rfl, rfl⟩
      · cases hsize
    · intro h
      obtain ⟨_, hlt, rfl, rfl⟩ := h
      exact ⟨_, if_pos hlt, rfl⟩

/-- Only a variable that already has its bits is refused, and it leaves the layout as it
was. -/
theorem reserve_eq_error {layout layout' : Layout} {id : VarId} {length : Nat}
    {cause : LayoutError} :
    layout.reserve id length = .ok (layout', .error cause) ↔
      layout.contains id = true ∧ layout' = layout ∧ cause = .alreadyRegistered id := by
  rw [reserve]
  cases layout.contains id with
  | true => simp [eq_comm]
  | false =>
    rw [if_neg Bool.false_ne_true, bind_eq_ok]
    constructor
    · rintro ⟨_, _, ⟨⟩⟩
    · rintro ⟨⟨⟩, _⟩

/-- A variable with an identity is given bits under it. -/
theorem register_eq_reserve {V : Type} [BEq V] {layout : Layout} {v : Variable V} {id : VarId}
    (hid : v.id? = some id) : layout.register v = layout.reserve id v.size := by
  rw [register, hid]

/-! ## Growth -/

/-- The second layout keeps every reservation of the first. -/
def Grows (layout layout' : Layout) : Prop :=
  ∀ id r, layout.find? id = some r → layout'.find? id = some r

theorem Grows.refl (layout : Layout) : layout.Grows layout := fun _ _ h => h

theorem Grows.trans {a b c : Layout} (hab : a.Grows b) (hbc : b.Grows c) : a.Grows c :=
  fun id r h => hbc id r (hab id r h)

/-- What has been registered keeps its bits. -/
theorem grows_extend {layout : Layout} {id : VarId} (hnew : layout.find? id = none)
    (length : Nat) : layout.Grows (layout.extend id length) := by
  intro other r h
  have hne : other ≠ id := by
    rintro rfl
    rw [hnew] at h
    cases h
  rw [find?_extend, if_neg hne, h]

/-! ## Packing -/

/-- The layout has grown from the empty one: each reservation starts where the
one before ends, and no variable has two. -/
inductive Packed : Layout → Prop
  | empty : Packed .empty
  | extend {layout : Layout} {id : VarId} {length : Nat} : Packed layout →
      layout.find? id = none → layout.size + length < Address.bound →
      Packed (layout.extend id length)

theorem Packed.size_lt {layout : Layout} (h : layout.Packed) : layout.size < Address.bound := by
  cases h with
  | empty => exact Nat.zero_lt_succ _
  | extend _ _ hlt => exact hlt

/-- Reserved bits lie inside the layout. -/
theorem Packed.stop_le {layout : Layout} (h : layout.Packed) {id : VarId} {r : Reservation}
    (hr : layout.find? id = some r) : r.start + r.length ≤ layout.size := by
  induction h with
  | empty => cases hr
  | extend hpacked _ _ ih =>
    rw [size_extend]
    rcases find?_extend_cases hr with hold | ⟨_, rfl⟩
    · exact Nat.le_add_right_of_le (ih hold)
    · exact Nat.le_refl _

/-- Every bit of the layout is reserved for some variable. -/
theorem Packed.exists_owner {layout : Layout} (h : layout.Packed) {k : Nat}
    (hk : k < layout.size) :
    ∃ id r, layout.find? id = some r ∧ r.start ≤ k ∧ k < r.start + r.length := by
  induction h with
  | empty => exact absurd hk (Nat.not_lt_zero k)
  | @extend layout id length hpacked hnew _ ih =>
    by_cases hold : k < layout.size
    · obtain ⟨owner, r, hr, hrange⟩ := ih hold
      exact ⟨owner, r, grows_extend hnew length owner r hr, hrange⟩
    · exact ⟨id, _, find?_extend_self layout id length, Nat.not_lt.mp hold, hk⟩

/-- No bit is reserved for two variables. -/
theorem Packed.eq_of_mem {layout : Layout} (h : layout.Packed) {id id' : VarId}
    {r r' : Reservation} (hr : layout.find? id = some r) (hr' : layout.find? id' = some r')
    {k : Nat} (hk : r.start ≤ k ∧ k < r.start + r.length)
    (hk' : r'.start ≤ k ∧ k < r'.start + r'.length) : id = id' := by
  induction h with
  | empty => cases hr
  | @extend layout id length hpacked _ _ ih =>
    rcases find?_extend_cases hr with hold | ⟨rfl, rfl⟩
    · rcases find?_extend_cases hr' with hold' | ⟨rfl, rfl⟩
      · exact ih hold hold'
      · -- an old bit lies below the new ones
        have hstop := hpacked.stop_le hold
        have hnew : layout.size ≤ k := hk'.1
        omega
    · rcases find?_extend_cases hr' with hold' | ⟨rfl, rfl⟩
      · have hstop := hpacked.stop_le hold'
        have hnew : layout.size ≤ k := hk.1
        omega
      · rfl

end Layout

/-! ## Anchors and their literals -/

/-- Whether what is anchored there is active when bit `i` has the truth value
`p i`: its bit is set, unless it is always active. -/
def Anchor.active (layout : Layout) (p : Nat → Bool) : Anchor → Bool
  | .root => true
  | .bit owner position => (layout.find? owner).any fun r => p (r.start + position)

@[simp] theorem Anchor.active_root (layout : Layout) (p : Nat → Bool) :
    Anchor.root.active layout p = true := rfl

theorem Anchor.active_bit {layout : Layout} {owner : VarId} {r : Reservation}
    (h : layout.find? owner = some r) (p : Nat → Bool) (position : Nat) :
    (Anchor.bit owner position).active layout p = p (r.start + position) := by
  rw [active, h, Option.any_some]

/-- The anchor is a bit of a registered variable, or there is no bit. -/
def Anchor.Registered (layout : Layout) : Anchor → Prop
  | .root => True
  | .bit owner position => ∃ r, layout.find? owner = some r ∧ position < r.length

theorem Anchor.Registered.mono {layout layout' : Layout} (hg : layout.Grows layout')
    {anchor : Anchor} (h : anchor.Registered layout) : anchor.Registered layout' := by
  cases anchor with
  | root => trivial
  | bit owner position =>
    obtain ⟨r, hr, hlt⟩ := h
    exact ⟨r, hg owner r hr, hlt⟩

/-- The bits of a layout have addresses. -/
theorem Anchor.Registered.inRange {layout : Layout} (hpacked : layout.Packed) {anchor : Anchor}
    (h : anchor.Registered layout) : anchor.InRange := by
  cases anchor with
  | root => trivial
  | bit owner position =>
    obtain ⟨r, hr, hlt⟩ := h
    have hstop := hpacked.stop_le hr
    have hbound := hpacked.size_lt
    show position < Address.bound
    omega

theorem Layout.startOf_eq_ok {layout : Layout} {id : VarId} {start : Nat} :
    layout.startOf id = .ok start ↔ ∃ r, layout.find? id = some r ∧ r.start = start := by
  rw [startOf]
  cases layout.find? id with
  | none => simp
  | some r => simp

theorem Layout.offsetOf_eq_ok {layout : Layout} {id : VarId} {start : Nat} :
    layout.offsetOf id = .ok start ↔ ∃ r, layout.find? id = some r ∧ r.start = start := by
  rw [offsetOf, startOf]
  cases layout.find? id with
  | none => simp [Except.mapError]
  | some r => simp [Except.mapError]

namespace Handle

/-- A handle has a literal exactly if its anchor is a bit of a registered
variable within the literal range, and it is the positive literal of that bit. -/
theorem toLiteral_eq_ok {layout : Layout} {handle : Handle} {l : Literal} :
    handle.toLiteral layout = .ok l ↔
      ∃ owner position r, handle.anchor = .bit owner position ∧ layout.find? owner = some r ∧
        ∃ h : r.start + position < Literal.indexBound,
          l = Literal.ofIndex (r.start + position) true h := by
  -- what can go wrong is the address of the anchor, its owner, and the literal range
  rw [toLiteral, bind_eq_ok]
  constructor
  · intro h
    obtain ⟨anchor, hresolve, hliteral⟩ := h
    rw [resolve] at hresolve
    split at hresolve
    · cases hresolve
      cases hanchor : handle.anchor with
      | root => rw [hanchor] at hliteral; cases hliteral
      | bit owner position =>
        rw [hanchor, Anchor.toLiteral, bind_eq_ok] at hliteral
        obtain ⟨start, hstart, hliteral⟩ := hliteral
        obtain ⟨r, hr, rfl⟩ := Layout.offsetOf_eq_ok.mp hstart
        obtain ⟨index, hindex, hliteral⟩ := bind_eq_ok.mp hliteral
        rw [Address.add, Address.check] at hindex
        split at hindex
        · cases hindex
          rw [Literal.positive, Literal.new] at hliteral
          split at hliteral
          · next hlt =>
            cases hliteral
            exact ⟨owner, position, r, rfl, hr, hlt, rfl⟩
          · cases hliteral
        · cases hindex
    · cases hresolve
  · intro h
    obtain ⟨owner, position, r, hanchor, hr, hlt, rfl⟩ := h
    have hbound : r.start + position < Address.bound :=
      Nat.lt_trans hlt (by decide)
    have hrange : handle.anchor.InRange := by
      rw [hanchor]
      exact Nat.lt_of_le_of_lt (Nat.le_add_left _ _) hbound
    refine ⟨handle.anchor, resolve_eq_ok hrange, ?_⟩
    rw [hanchor, Anchor.toLiteral, Layout.offsetOf_eq_ok.mpr ⟨r, hr, rfl⟩, ok_bind,
      Address.add_eq_ok hbound, ok_bind, Literal.positive, Literal.new_eq_ok hlt]

/-- The guard of a handle is its literal, and none for what is always active. -/
theorem guard_eq_ok {layout : Layout} {handle : Handle} {guard : Option Literal} :
    handle.guard layout = .ok guard ↔
      handle.anchor = .root ∧ guard = none ∨
        handle.anchor ≠ .root ∧ ∃ l, handle.toLiteral layout = .ok l ∧ guard = some l := by
  rw [Handle.guard]
  cases hanchor : handle.anchor with
  | root => simp [Anchor.isRoot, eq_comm]
  | bit owner position =>
    rw [Anchor.isRoot, if_neg Bool.false_ne_true, map_eq_ok]
    simp [eq_comm]

/-- A guard that there is is the literal of the handle. -/
theorem toLiteral_of_guard {layout : Layout} {handle : Handle} {l : Literal}
    (h : handle.guard layout = .ok (some l)) : handle.toLiteral layout = .ok l := by
  rcases guard_eq_ok.mp h with ⟨_, hnone⟩ | ⟨_, l', hl, hsome⟩
  · cases hnone
  · cases hsome
    exact hl

/-- Literals stay what they are while the layout grows. -/
theorem toLiteral_mono {layout layout' : Layout} (hg : layout.Grows layout') {handle : Handle}
    {l : Literal} (h : handle.toLiteral layout = .ok l) : handle.toLiteral layout' = .ok l := by
  obtain ⟨owner, position, r, hanchor, hr, hlt, hl⟩ := toLiteral_eq_ok.mp h
  exact toLiteral_eq_ok.mpr ⟨owner, position, r, hanchor, hg owner r hr, hlt, hl⟩

theorem guard_mono {layout layout' : Layout} (hg : layout.Grows layout') {handle : Handle}
    {guard : Option Literal} (h : handle.guard layout = .ok guard) :
    handle.guard layout' = .ok guard := by
  rcases guard_eq_ok.mp h with hroot | ⟨hbit, l, hl, hguard⟩
  · exact guard_eq_ok.mpr (.inl hroot)
  · exact guard_eq_ok.mpr (.inr ⟨hbit, l, toLiteral_mono hg hl, hguard⟩)

/-- The literal of a handle says whether its anchor is active. -/
theorem holds_of_toLiteral {layout : Layout} {handle : Handle} {l : Literal}
    (h : handle.toLiteral layout = .ok l) (p : Nat → Bool) :
    l.holds p = handle.anchor.active layout p := by
  obtain ⟨owner, position, r, hanchor, hr, hlt, rfl⟩ := toLiteral_eq_ok.mp h
  rw [Literal.holds_ofIndex_true, hanchor, Anchor.active_bit hr]

/-- The literal of a registered anchor lies inside the layout. -/
theorem index_lt_of_toLiteral {layout : Layout} (hpacked : layout.Packed) {handle : Handle}
    (hregistered : handle.anchor.Registered layout) {l : Literal}
    (h : handle.toLiteral layout = .ok l) : l.index < layout.size := by
  obtain ⟨owner, position, r, hanchor, hr, hlt, rfl⟩ := toLiteral_eq_ok.mp h
  rw [hanchor] at hregistered
  obtain ⟨r', hr', hposition⟩ := hregistered
  cases hr.symm.trans hr'
  rw [Literal.index_ofIndex]
  have hstop := hpacked.stop_le hr
  omega

theorem index_lt_of_guard {layout : Layout} (hpacked : layout.Packed) {handle : Handle}
    (hregistered : handle.anchor.Registered layout) {l : Literal}
    (h : handle.guard layout = .ok (some l)) : l.index < layout.size := by
  exact index_lt_of_toLiteral hpacked hregistered (toLiteral_of_guard h)

/-- Anything registered in a layout within the literal range has a literal, unless it
is always active. -/
theorem exists_literal {layout : Layout} (hpacked : layout.Packed) {handle : Handle}
    (hregistered : handle.anchor.Registered layout) (hbit : handle.anchor ≠ .root)
    (narrow : layout.size ≤ Literal.indexBound) : ∃ l, handle.toLiteral layout = .ok l := by
  cases hanchor : handle.anchor with
  | root => exact absurd hanchor hbit
  | bit owner position =>
    rw [hanchor] at hregistered
    obtain ⟨r, hr, hposition⟩ := hregistered
    have hstop := hpacked.stop_le hr
    exact ⟨_, toLiteral_eq_ok.mpr ⟨owner, position, r, hanchor, hr, by omega, rfl⟩⟩

/-- There, everything registered has a guard. -/
theorem exists_guard {layout : Layout} (hpacked : layout.Packed) {handle : Handle}
    (hregistered : handle.anchor.Registered layout) (narrow : layout.size ≤ Literal.indexBound) :
    ∃ guard, handle.guard layout = .ok guard := by
  by_cases hroot : handle.anchor = .root
  · exact ⟨none, guard_eq_ok.mpr (.inl ⟨hroot, rfl⟩)⟩
  · obtain ⟨l, hl⟩ := exists_literal hpacked hregistered hroot narrow
    exact ⟨some l, guard_eq_ok.mpr (.inr ⟨hroot, l, hl, rfl⟩)⟩

/-- A literal of a handle has an opposite. -/
theorem index_lt_indexBound {layout : Layout} {handle : Handle} {l : Literal}
    (h : handle.toLiteral layout = .ok l) : l.index < Literal.indexBound := by
  obtain ⟨owner, position, r, _, _, hlt, rfl⟩ := toLiteral_eq_ok.mp h
  rw [Literal.index_ofIndex]
  exact hlt

/-- The guard of a registered anchor can be tested wherever the layout fits. -/
theorem inside_of_guard {layout : Layout} (hpacked : layout.Packed) {handle : Handle}
    (hregistered : handle.anchor.Registered layout) {guard : Option Literal}
    (h : handle.guard layout = .ok guard) {width : Nat} (wide : layout.size ≤ width) :
    ∀ l ∈ guard, l.index < width ∧ l.index < Literal.indexBound := by
  intro l hl
  subst hl
  exact ⟨Nat.lt_of_lt_of_le (index_lt_of_guard hpacked hregistered h) wide,
    index_lt_indexBound (toLiteral_of_guard h)⟩

/-- The guard of a handle is true exactly if its anchor is active. -/
theorem all_holds_of_guard {layout : Layout} {handle : Handle} {guard : Option Literal}
    (h : handle.guard layout = .ok guard) (p : Nat → Bool) :
    guard.all (·.holds p) = handle.anchor.active layout p := by
  rcases guard_eq_ok.mp h with ⟨hroot, rfl⟩ | ⟨_, l, hl, rfl⟩
  · rw [hroot, Option.all_none, Anchor.active_root]
  · rw [Option.all_some]
    exact holds_of_toLiteral hl p

end Handle

end ChoiceTree
