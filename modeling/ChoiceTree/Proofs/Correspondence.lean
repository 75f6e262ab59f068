import Mathlib
import ChoiceTree.Proofs.Emission

/-!
# Corresponding variables

An identity only says which variable is meant, and a name is only shown. Two variables,
of one session or of two, correspond if everything else about them is the same: their
shape, where their bits start, and the bit that their parents anchor at. Whatever is
computed from corresponding variables is then the same on both sides:

* `Anchor.Matches`, `Handle.toLiteral_congr`, `Handle.guard_congr` — literals and guards;
* `Variable.Corresponds.emitted_eq` — the constraints, literal by literal;
* `Variable.toOption_decode_eq` — what is decoded. Only the wording of a fault may differ,
  because it has the name in it.
-/

namespace ChoiceTree

variable {V : Type} [BEq V]

/-! ## Anchors at the same bit -/

/-- Under their layouts, the two anchors are the same bit, or neither is a bit. -/
inductive Anchor.Matches (layout layout' : Layout) : Anchor → Anchor → Prop
  | root : Matches layout layout' .root .root
  | bit {owner owner' : VarId} {r r' : Reservation} {position : Nat} :
      layout.find? owner = some r → layout'.find? owner' = some r' → r.start = r'.start →
      Matches layout layout' (.bit owner position) (.bit owner' position)

namespace Anchor.Matches

variable {layout layout' : Layout} {anchor anchor' : Anchor}

theorem mono {later later' : Layout} (hgrows : layout.Grows later)
    (hgrows' : layout'.Grows later') (h : Matches layout layout' anchor anchor') :
    Matches later later' anchor anchor' := by
  cases h with
  | root => exact .root
  | bit hr hr' hstart => exact .bit (hgrows _ _ hr) (hgrows' _ _ hr') hstart

theorem symm (h : Matches layout layout' anchor anchor') :
    Matches layout' layout anchor' anchor := by
  cases h with
  | root => exact .root
  | bit hr hr' hstart => exact .bit hr' hr hstart.symm

/-- A registered anchor stays the same bit while the layout grows. -/
theorem of_grows (hgrows : layout.Grows layout') (h : anchor.Registered layout) :
    Matches layout layout' anchor anchor := by
  cases anchor with
  | root => exact .root
  | bit owner position =>
    obtain ⟨r, hr, _⟩ := h
    exact .bit hr (hgrows owner r hr) rfl

theorem isRoot_eq (h : Matches layout layout' anchor anchor') :
    anchor.isRoot = anchor'.isRoot := by
  cases h <;> rfl

end Anchor.Matches

namespace Handle

/-- The literal of a handle is that of its anchor, if that has an address. -/
theorem toLiteral_eq_ite (layout : Layout) (handle : Handle) :
    handle.toLiteral layout =
      if handle.anchor.InRange then handle.anchor.toLiteral layout
      else .error .additionOverflow := by
  unfold toLiteral resolve
  split <;> rfl

/-- Handles that anchor at the same bit have the same literal, or fault alike. -/
theorem toLiteral_congr {layout layout' : Layout} {handle handle' : Handle}
    (h : handle.anchor.Matches layout layout' handle'.anchor) :
    handle.toLiteral layout = handle'.toLiteral layout' := by
  rw [toLiteral_eq_ite, toLiteral_eq_ite]
  generalize handle.anchor = anchor at h ⊢
  generalize handle'.anchor = anchor' at h ⊢
  cases h with
  | root => rfl
  | @bit owner owner' r r' position hr hr' hstart =>
    have hoffset : layout.offsetOf owner = layout'.offsetOf owner' := by
      rw [Layout.offsetOf_eq_ok.mpr ⟨r, hr, rfl⟩, Layout.offsetOf_eq_ok.mpr ⟨r', hr', rfl⟩, hstart]
    have hliteral : (Anchor.bit owner position).toLiteral layout =
        (Anchor.bit owner' position).toLiteral layout' := by
      rw [Anchor.toLiteral, Anchor.toLiteral, hoffset]
    -- whether a bit has an address only depends on its position
    rw [hliteral]
    rfl

theorem guard_congr {layout layout' : Layout} {handle handle' : Handle}
    (h : handle.anchor.Matches layout layout' handle'.anchor) :
    handle.guard layout = handle'.guard layout' := by
  rw [guard, guard, h.isRoot_eq, toLiteral_congr h]

end Handle

/-! ## Shapes -/

/-- A variable without its identity, its name and its parent. -/
inductive Shape (V : Type) [BEq V] where
  | root
  | flag (payload : V)
  | select (kind : SelectKind) (optional : Bool) (domain : Domain V)

namespace Shape

def optional : Shape V → Bool
  | .root => false
  | .flag _ => true
  | .select _ optional _ => optional

/-- The number of bits of a variable of this shape. -/
def size : Shape V → Nat
  | .root => 0
  | .flag _ => 1
  | .select _ optional domain => domain.size + optional.toNat

end Shape

namespace Variable

def shape : Variable V → Shape V
  | .root _ => .root
  | .flag f => .flag f.payload
  | .select s => .select s.kind s.optional s.domain

@[simp] theorem optional_shape (v : Variable V) : v.shape.optional = v.optional := by
  cases v <;> rfl

@[simp] theorem size_shape (v : Variable V) : v.shape.size = v.size := by
  cases v <;> rfl

theorem optional_eq_of_shape_eq {v w : Variable V} (h : v.shape = w.shape) :
    v.optional = w.optional := by
  rw [← optional_shape, h, optional_shape]

theorem size_eq_of_shape_eq {v w : Variable V} (h : v.shape = w.shape) : v.size = w.size := by
  rw [← size_shape, h, size_shape]

theorem exists_flag_of_shape_eq {f : Flag V} {w : Variable V}
    (h : (Variable.flag f).shape = w.shape) : ∃ g, w = .flag g ∧ f.payload = g.payload := by
  cases w with
  | flag g => exact ⟨g, rfl, Shape.flag.inj h⟩
  | root => cases h
  | select => cases h

theorem exists_select_of_shape_eq {s : Select V} {w : Variable V}
    (h : (Variable.select s).shape = w.shape) :
    ∃ s', w = .select s' ∧ s.kind = s'.kind ∧ s.optional = s'.optional ∧ s.domain = s'.domain := by
  cases w with
  | select s' => exact ⟨s', rfl, Shape.select.inj h⟩
  | root => cases h
  | flag => cases h

end Variable

/-! ## What is decoded -/

section

variable {α : Type} [Assignment α]

/-- Selects that differ in identity, name and parent decode to the same, or both fault. -/
theorem Select.toOption_decode_eq {s s' : Select V} (hkind : s.kind = s'.kind)
    (hoptional : s.optional = s'.optional) (hdomain : s.domain = s'.domain) (a : α)
    (offset : Nat) (guard : Option Literal) :
    (s.decode a offset guard).toOption = (s'.decode a offset guard).toOption := by
  have hfirst : s.firstOption = s'.firstOption := congrArg Bool.toNat hoptional
  unfold decode
  rw [hoptional, hfirst, hdomain, hkind]
  -- what is left of the name is in the label of the fault
  refine toOption_bind_congr rfl fun active => ?_
  cases active with
  | false => rfl
  | true =>
    refine toOption_bind_congr rfl fun start => toOption_bind_congr rfl fun stop => ?_
    cases s'.kind with
    | nominal =>
      refine toOption_bind_congr rfl fun index => ?_
      cases index <;> rfl
    | multiple =>
      refine toOption_bind_congr rfl fun values => ?_
      cases values <;> rfl

/-- Variables of one shape decode to the same, or both fault. -/
theorem Variable.toOption_decode_eq {v w : Variable V} (h : v.shape = w.shape) (a : α)
    (offset : Nat) (guard : Option Literal) :
    (v.decode a offset guard).toOption = (w.decode a offset guard).toOption := by
  cases v with
  | root name =>
    cases w with
    | root => rfl
    | flag => cases h
    | select => cases h
  | flag f =>
    obtain ⟨g, rfl, hpayload⟩ := exists_flag_of_shape_eq h
    show (do return (← f.decode a offset guard).map Decoded.flag : Except Fault _).toOption =
      (do return (← g.decode a offset guard).map Decoded.flag : Except Fault _).toOption
    unfold Flag.decode
    rw [hpayload]
  | select s =>
    obtain ⟨s', rfl, hkind, hoptional, hdomain⟩ := exists_select_of_shape_eq h
    exact toOption_bind_congr (Select.toOption_decode_eq hkind hoptional hdomain a offset guard)
      fun _ => rfl

end

/-! ## Correspondence -/

/-- Under their layouts, the variables have the same shape, their bits start at the same
place, and their parents anchor at the same bit. -/
structure Variable.Corresponds (layout layout' : Layout) (v w : Variable V) : Prop where
  shape_eq : v.shape = w.shape
  placed : ∃ id id' r r', v.id? = some id ∧ w.id? = some id' ∧ layout.find? id = some r ∧
    layout'.find? id' = some r' ∧ r.start = r'.start
  nested : ∃ parent parent', v.parent = .ok parent ∧ w.parent = .ok parent' ∧
    parent.anchor.Matches layout layout' parent'.anchor

namespace Variable.Corresponds

variable {layout layout' : Layout} {v w : Variable V}

theorem mono {later later' : Layout} (hgrows : layout.Grows later)
    (hgrows' : layout'.Grows later') (h : v.Corresponds layout layout' w) :
    v.Corresponds later later' w := by
  obtain ⟨hshape, ⟨id, id', r, r', hid, hid', hr, hr', hstart⟩, parent, parent', hparent, hparent',
    hmatches⟩ := h
  exact ⟨hshape, ⟨id, id', r, r', hid, hid', hgrows _ _ hr, hgrows' _ _ hr', hstart⟩,
    parent, parent', hparent, hparent', hmatches.mono hgrows hgrows'⟩

theorem symm (h : v.Corresponds layout layout' w) : w.Corresponds layout' layout v := by
  obtain ⟨hshape, ⟨id, id', r, r', hid, hid', hr, hr', hstart⟩, parent, parent', hparent, hparent',
    hmatches⟩ := h
  exact ⟨hshape.symm, ⟨id', id, r', r, hid', hid, hr', hr, hstart.symm⟩,
    parent', parent, hparent', hparent, hmatches.symm⟩

/-- The handles anchor at the same bit: at the first one if the variables are optional,
where their parents do if not. -/
theorem matches_handle (h : v.Corresponds layout layout' w) :
    v.handle.anchor.Matches layout layout' w.handle.anchor := by
  obtain ⟨hshape, ⟨id, id', r, r', hid, hid', hr, hr', hstart⟩, parent, parent', hparent, hparent',
    hmatches⟩ := h
  have hoptional := optional_eq_of_shape_eq hshape
  cases hv : v.optional with
  | true =>
    rw [anchor_handle_of_optional hid hv, anchor_handle_of_optional hid' (hoptional ▸ hv)]
    exact .bit hr hr' hstart
  | false =>
    rw [anchor_handle_of_mandatory hparent hv,
      anchor_handle_of_mandatory hparent' (hoptional ▸ hv)]
    exact hmatches

/-- The bit at a position of the one variable is the bit at this position of the other. -/
theorem matches_bit (h : v.Corresponds layout layout' w) {id id' : VarId} (hid : v.id? = some id)
    (hid' : w.id? = some id') (position : Nat) :
    (Anchor.bit id position).Matches layout layout' (.bit id' position) := by
  obtain ⟨_, ⟨_, _, r, r', hvid, hwid, hr, hr', hstart⟩, _⟩ := h
  cases hid.symm.trans hvid
  cases hid'.symm.trans hwid
  exact .bit hr hr' hstart

/-- Options in the same place of corresponding selects anchor at the same bit. -/
theorem matches_option {s s' : Select V}
    (h : (Variable.select s).Corresponds layout layout' (.select s')) {o o' : SelectOption V}
    (ho : o ∈ s.options) (ho' : o' ∈ s'.options) (hindex : o.ref.index = o'.ref.index) :
    o.handle.anchor.Matches layout layout' o'.handle.anchor := by
  have hoptional : s.optional = s'.optional := optional_eq_of_shape_eq h.shape_eq
  have hfirst : s.firstOption = s'.firstOption := congrArg Bool.toNat hoptional
  rw [Select.anchor_option ho, Select.anchor_option ho', hindex, hfirst]
  exact h.matches_bit rfl rfl _

theorem parentLiteral_eq (h : v.Corresponds layout layout' w) :
    v.parentLiteral layout = w.parentLiteral layout' := by
  obtain ⟨parent, parent', hparent, hparent', hmatches⟩ := h.nested
  rw [parentLiteral_eq_guard hparent, parentLiteral_eq_guard hparent', Handle.guard_congr hmatches]

/-- The literals of the options are the same, place by place. -/
theorem mapM_options_eq {s s' : Select V}
    (h : (Variable.select s).Corresponds layout layout' (.select s')) :
    s.options.mapM (SelectOption.toLiteral layout) =
      s'.options.mapM (SelectOption.toLiteral layout') := by
  have hsize : s.options.length = s'.options.length := by
    obtain ⟨_, _, hdomain⟩ := Shape.select.inj h.shape_eq
    rw [s.length_options, s'.length_options, hdomain]
  refine mapM_congr_of_forall₂ (List.forall₂_iff_get.mpr ⟨hsize, fun i hi hi' => ?_⟩)
  have hindex : s.options[i].ref.index = s'.options[i].ref.index := by
    rw [s.getElem_options, s'.getElem_options]
  exact Handle.toLiteral_congr
    (h.matches_option (List.getElem_mem hi) (List.getElem_mem hi') hindex)

theorem implicitConstraints_eq (h : v.Corresponds layout layout' w) :
    v.implicitConstraints layout = w.implicitConstraints layout' := by
  cases v with
  | root name =>
    obtain ⟨_, _, hparent, _⟩ := h.nested
    cases hparent
  | flag f =>
    obtain ⟨g, rfl, _⟩ := exists_flag_of_shape_eq h.shape_eq
    rfl
  | select s =>
    obtain ⟨s', rfl, hkind, _⟩ := exists_select_of_shape_eq h.shape_eq
    have hguard : s.governor.guard layout = s'.governor.guard layout' := by
      apply Handle.guard_congr
      rw [s.anchor_governor, s'.anchor_governor]
      exact h.matches_handle
    show s.implicitConstraints layout = s'.implicitConstraints layout'
    unfold Select.implicitConstraints
    rw [h.mapM_options_eq, hguard, hkind]

theorem scopeConstraints_eq (h : v.Corresponds layout layout' w) :
    v.scopeConstraints layout = w.scopeConstraints layout' := by
  have hown : v.toLiteral layout = w.toLiteral layout' := Handle.toLiteral_congr h.matches_handle
  unfold scopeConstraints
  rw [optional_eq_of_shape_eq h.shape_eq, h.parentLiteral_eq, hown]

/-- **Corresponding variables are emitted alike.** -/
theorem emitted_eq (h : v.Corresponds layout layout' w) :
    v.emitted layout = w.emitted layout' := by
  unfold emitted
  rw [h.implicitConstraints_eq, h.scopeConstraints_eq]

end Variable.Corresponds

end ChoiceTree
