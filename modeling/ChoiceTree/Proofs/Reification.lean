import Mathlib
import ChoiceTree.Proofs.Run

/-!
# Which bit stands for a handle

A mandatory variable takes its anchor from its parent when it is created, so an anchor
is never looked up along the tree. This module gives the look-up that it stands for:
the way from a handle up to the root, and the first node on it that has a bit.

* `Way`, `Grown.exists_way` — in a tree there is a way from every handle to the root;
* `Way.anchor_eq` — a handle anchors at the nearest bit on its way;
* `MandatoryChain.anchor_eq`, `Variable.exists_rebase` — mandatory variables put in
  between change nothing;
* `Handle.guard_of_anchor` — the guard is the literal of that bit;
* `Grown.anchored_at_nearest` — all of it for a variable of any tree.
-/

namespace ChoiceTree

variable {V : Type} [BEq V]

/-! ## Ways to the root -/

/-- What is met on the way to the root: a variable, or an option of a select. -/
inductive Node (V : Type) [BEq V] where
  | var (v : Variable V)
  | option (s : Select V) (o : SelectOption V)

/-- The bit of the node itself: the activation bit of an optional variable, or the bit
of an option, which an optional owner has behind its activation bit. A mandatory
variable has none. -/
def Node.bit? : Node V → Option Anchor
  | .var v => if v.optional then v.id?.map (.bit · 0) else none
  | .option s o => some (.bit s.id (o.index + s.optional.toNat))

/-- The first bit that is met, the root if there is none. -/
def nearest (nodes : List (Node V)) : Anchor := (nodes.findSome? Node.bit?).getD .root

/-- `Way vs h nodes`: the nodes are those on the way from `h`, the first of them, up to
the root, which is left out. An option is followed by its select, and a variable by
what it is nested under. -/
inductive Way (vs : List (Variable V)) : Handle → List (Node V) → Prop
  | root : Way vs .root []
  | var {v : Variable V} {parent : Handle} {nodes : List (Node V)} : v ∈ vs →
      v.parent = .ok parent → Way vs parent nodes → Way vs v.handle (.var v :: nodes)
  | option {s : Select V} {o : SelectOption V} {nodes : List (Node V)} : .select s ∈ vs →
      o ∈ s.options → Way vs s.handle nodes → Way vs o.handle (.option s o :: nodes)

/-- In a tree, there is a way from every handle. -/
theorem Grown.exists_way {vs : List (Variable V)} (grown : Grown vs) {h : Handle}
    (hknown : Known vs h) : ∃ nodes, Way vs h nodes := by
  refine grown.handle_induction (P := fun h => ∃ nodes, Way vs h nodes) ⟨[], .root⟩ ?_ ?_ hknown
  · rintro v hv parent hparent _ ⟨nodes, way⟩
    exact ⟨_, .var hv hparent way⟩
  · rintro s hs o ho ⟨nodes, way⟩
    exact ⟨_, .option hs ho way⟩

namespace Node

theorem bit?_var {v : Variable V} {id : VarId} (hid : v.id? = some id) :
    (var v).bit? = if v.optional then some (.bit id 0) else none := by
  rw [bit?, hid, Option.map_some]

/-- The bit of a node is never the root. -/
theorem exists_bit {node : Node V} {anchor : Anchor} (h : node.bit? = some anchor) :
    ∃ owner position, anchor = .bit owner position := by
  cases node with
  | var v =>
    rw [bit?] at h
    split at h
    · obtain ⟨id, _, rfl⟩ := Option.map_eq_some_iff.mp h
      exact ⟨id, 0, rfl⟩
    · cases h
  | option s o =>
    cases h
    exact ⟨_, _, rfl⟩

end Node

theorem nearest_cons (node : Node V) (nodes : List (Node V)) :
    nearest (node :: nodes) = node.bit?.getD (nearest nodes) := by
  rw [nearest, List.findSome?_cons]
  cases node.bit? with
  | none => rfl
  | some anchor => rfl

/-- The root is nearest exactly if no bit is met. -/
theorem nearest_eq_root {nodes : List (Node V)} :
    nearest nodes = .root ↔ ∀ node ∈ nodes, node.bit? = none := by
  rw [← List.findSome?_eq_none_iff, nearest]
  cases hfound : nodes.findSome? Node.bit? with
  | none => simp
  | some anchor =>
    obtain ⟨node, _, hnode⟩ := List.exists_of_findSome?_eq_some hfound
    obtain ⟨owner, position, rfl⟩ := Node.exists_bit hnode
    simp

/-- A bit that is nearest is the bit of some node. -/
theorem exists_of_nearest_eq_bit {nodes : List (Node V)} {owner : VarId} {position : Nat}
    (h : nearest nodes = .bit owner position) :
    ∃ node ∈ nodes, node.bit? = some (.bit owner position) := by
  rw [nearest] at h
  cases hfound : nodes.findSome? Node.bit? with
  | none =>
    rw [hfound] at h
    cases h
  | some anchor =>
    rw [hfound] at h
    cases h
    exact List.exists_of_findSome?_eq_some hfound

namespace Way

variable {vs : List (Variable V)} {h : Handle} {nodes : List (Node V)}

/-- **A handle anchors at the nearest bit on its way to the root.** -/
theorem anchor_eq (way : Way vs h nodes) : h.anchor = nearest nodes := by
  induction way with
  | root => rfl
  | @var v parent nodes _ hparent _ ih =>
    obtain ⟨id, hid⟩ := Variable.exists_id hparent
    rw [nearest_cons, Node.bit?_var hid]
    cases hoptional : v.optional with
    | true => exact Variable.anchor_handle_of_optional hid hoptional
    | false => exact (Variable.anchor_handle_of_mandatory hparent hoptional).trans ih
  | @option s o nodes _ ho _ _ =>
    rw [nearest_cons, Select.anchor_option ho, Nat.add_comm]
    rfl

/-- The bits that are met belong to variables of the tree. -/
theorem exists_owner (way : Way vs h nodes) {node : Node V} (hnode : node ∈ nodes)
    {owner : VarId} {position : Nat} (hbit : node.bit? = some (.bit owner position)) :
    ∃ v ∈ vs, v.id? = some owner := by
  induction way with
  | root => cases hnode
  | @var v parent nodes hv hparent _ ih =>
    rcases List.mem_cons.mp hnode with rfl | hrest
    · obtain ⟨id, hid⟩ := Variable.exists_id hparent
      rw [Node.bit?_var hid] at hbit
      split at hbit
      · cases hbit
        exact ⟨v, hv, hid⟩
      · cases hbit
    · exact ih hrest
  | @option s o nodes hs _ _ ih =>
    rcases List.mem_cons.mp hnode with rfl | hrest
    · cases hbit
      exact ⟨.select s, hs, rfl⟩
    · exact ih hrest

end Way

/-! ## Mandatory variables in between -/

/-- `MandatoryChain V upper lower`: the lower handle is reached from the upper one by
nesting mandatory variables under each other. -/
inductive MandatoryChain (V : Type) [BEq V] (upper : Handle) : Handle → Prop
  | nil : MandatoryChain V upper upper
  | snoc {v : Variable V} {lower : Handle} : MandatoryChain V upper lower →
      v.parent = .ok lower → v.optional = false → MandatoryChain V upper v.handle

/-- A chain of mandatory variables anchors where it starts. -/
theorem MandatoryChain.anchor_eq {upper lower : Handle} (chain : MandatoryChain V upper lower) :
    lower.anchor = upper.anchor := by
  induction chain with
  | nil => rfl
  | snoc _ hparent hmandatory ih =>
    exact (Variable.anchor_handle_of_mandatory hparent hmandatory).trans ih

namespace Variable

/-- What a variable is governed by anchors where the variable does. -/
theorem anchor_governor (v : Variable V) : v.governor.anchor = v.handle.anchor := by
  cases v with
  | root name => rfl
  | flag f => rfl
  | select s => exact s.anchor_governor

/-- Under a parent with the same anchor, a variable has the same handle, the same literals
and, if it is a select, the same options. -/
theorem exists_rebase {v : Variable V} {id : VarId} {upper lower : Handle}
    (hid : v.id? = some id) (hparent : v.parent = .ok upper)
    (hanchor : lower.anchor = upper.anchor) :
    ∃ w, v.rebase id lower = .ok w ∧ w.parent = .ok lower ∧ w.handle = v.handle ∧
      (∀ layout, w.toLiteral layout = v.toLiteral layout ∧
        w.parentLiteral layout = v.parentLiteral layout) ∧
      ∀ s, v = .select s → ∃ s', w = .select s' ∧ s'.options = s.options := by
  have hguard : ∀ layout, lower.guard layout = upper.guard layout := by
    intro layout
    rw [Handle.guard, Handle.guard, Handle.toLiteral, Handle.toLiteral, Handle.resolve,
      Handle.resolve, hanchor]
  cases v with
  | root name => cases hid
  | flag f =>
    cases hid
    cases hparent
    refine ⟨_, rfl, rfl, rfl, fun layout => ⟨rfl, hguard layout⟩, ?_⟩
    rintro s ⟨⟩
  | select s =>
    cases hid
    cases hparent
    have hanchored : s.optional = true ∨ lower.anchor.InRange := by
      rw [hanchor]
      exact s.anchored
    have hrebase : s.rebase s.id lower =
        .ok ⟨s.id, s.name, lower, s.kind, s.optional, s.domain, hanchored⟩ :=
      Select.ofDomain_eq_ok.mpr ⟨hanchored, rfl⟩
    have href : VarRef.under lower s.id s.optional = s.ref := by
      rw [Select.ref, VarRef.under, VarRef.under, hanchor]
    refine ⟨_, map_eq_ok.mpr ⟨_, hrebase, rfl⟩, rfl, congrArg Handle.var href,
      fun layout => ⟨?_, hguard layout⟩, ?_⟩
    · exact congrArg (fun ref => Handle.toLiteral layout (.var ref)) href
    · rintro _ ⟨⟩
      refine ⟨_, rfl, ?_⟩
      rw [Select.options, Select.options, Select.ref, href]

end Variable

/-! ## Literals -/

/-- The layout has bits for each of the variables. -/
def Layout.Covers (layout : Layout) (vs : List (Variable V)) : Prop :=
  ∀ v ∈ vs, ∀ id, v.id? = some id → ∃ start, layout.startOf id = .ok start

/-- The layout of a session covers its variables. -/
theorem Run.covers {root : String} {t : Transcript V} {b : Builder} (run : Run root t b) :
    b.layout.Covers t.created := by
  intro v hv id hid
  obtain ⟨id', r, hid', hr, _⟩ := run.exists_reservation hv
  cases hid.symm.trans hid'
  exact ⟨r.start, Layout.startOf_eq_ok.mpr ⟨r, hr, rfl⟩⟩

namespace Handle

/-- There is no guard exactly if the handle anchors at the root. -/
theorem guard_eq_none {layout : Layout} {h : Handle} :
    h.guard layout = .ok none ↔ h.anchor = .root := by
  rw [guard_eq_ok]
  simp

/-- A handle that anchors at a bit is guarded by the positive literal of the bit, if the
bit has one. -/
theorem guard_of_anchor {layout : Layout} {h : Handle} {owner : VarId} {position start : Nat}
    (hanchor : h.anchor = .bit owner position) (hstart : layout.startOf owner = .ok start) :
    (∀ hlt : start + position < Literal.indexBound,
      h.guard layout = .ok (some (.ofIndex (start + position) true hlt))) ∧
    (Literal.indexBound ≤ start + position → ∃ fault, h.guard layout = .error fault) := by
  obtain ⟨r, hr, rfl⟩ := Layout.startOf_eq_ok.mp hstart
  have hroot : h.anchor ≠ .root := by
    rw [hanchor]
    exact Anchor.noConfusion
  constructor
  · intro hlt
    exact guard_eq_ok.mpr
      (.inr ⟨hroot, _, toLiteral_eq_ok.mpr ⟨owner, position, r, hanchor, hr, hlt, rfl⟩, rfl⟩)
  · intro hge
    cases hguard : h.guard layout with
    | error fault => exact ⟨fault, rfl⟩
    | ok guard =>
      rcases guard_eq_ok.mp hguard with ⟨habsurd, _⟩ | ⟨_, l, hl, _⟩
      · exact absurd habsurd hroot
      · -- a literal would be that of another bit
        obtain ⟨owner', position', r', hanchor', hr', hlt, _⟩ := toLiteral_eq_ok.mp hl
        cases hanchor.symm.trans hanchor'
        cases hr.symm.trans hr'
        exact absurd hlt (Nat.not_lt.mpr hge)

end Handle

/-! ## Every variable of a tree -/

/-- **Anchors are the nearest bits.** In a tree of any depth, there is a way from the
parent of a variable to the root, and the variable in front of it makes a way from the
variable.

* The variable, as well as what it is governed by, anchors at the nearest bit on any way
  from it, and at the root exactly if the way meets no bit.
* Under any chain of mandatory variables that starts at its parent, the variable has the
  same handle, the same literal, the same literal of its parent and the same options.
* With bits for all variables, the literal of the parent is missing exactly if the way
  from the parent meets no bit, and otherwise it is the positive literal of the nearest
  one; the only fault is a bit beyond all literals. -/
theorem Grown.anchored_at_nearest {vs : List (Variable V)} (grown : Grown vs) {v : Variable V}
    (hv : v ∈ vs) :
    ∃ id parent, v.id? = some id ∧ v.parent = .ok parent ∧
      (∃ nodes, Way vs parent nodes ∧ Way vs v.handle (.var v :: nodes)) ∧
      (∀ nodes, Way vs v.handle nodes → v.handle.anchor = nearest nodes ∧
        (v.handle.anchor = .root ↔ ∀ node ∈ nodes, node.bit? = none)) ∧
      v.governor.anchor = v.handle.anchor ∧
      (∀ lower, MandatoryChain V parent lower → ∃ w, v.rebase id lower = .ok w ∧
        w.parent = .ok lower ∧ w.handle = v.handle ∧ w.handle.anchor = v.handle.anchor ∧
        (∀ layout, w.toLiteral layout = v.toLiteral layout ∧
          w.parentLiteral layout = v.parentLiteral layout) ∧
        ∀ s, v = .select s → ∃ s', w = .select s' ∧ s'.options = s.options) ∧
      ∀ nodes, Way vs parent nodes → ∀ layout : Layout, layout.Covers vs →
        (v.parentLiteral layout = .ok none ↔ ∀ node ∈ nodes, node.bit? = none) ∧
        ∀ owner position, nearest nodes = .bit owner position →
          ∃ start, layout.startOf owner = .ok start ∧
            (∀ hlt : start + position < Literal.indexBound,
              v.parentLiteral layout = .ok (some (.ofIndex (start + position) true hlt))) ∧
            (Literal.indexBound ≤ start + position →
              ∃ fault, v.parentLiteral layout = .error fault) := by
  obtain ⟨parent, hparent, hknown⟩ := grown.parent_known hv
  obtain ⟨id, hid⟩ := Variable.exists_id hparent
  obtain ⟨nodes, way⟩ := grown.exists_way hknown
  refine ⟨id, parent, hid, hparent, ⟨nodes, way, .var hv hparent way⟩, ?_,
    v.anchor_governor, ?_, ?_⟩
  · intro nodes way
    have hanchor := way.anchor_eq
    exact ⟨hanchor, by rw [hanchor, nearest_eq_root]⟩
  · intro lower chain
    obtain ⟨w, hw, hlower, hhandle, hliterals⟩ :=
      Variable.exists_rebase hid hparent chain.anchor_eq
    exact ⟨w, hw, hlower, hhandle, congrArg Handle.anchor hhandle, hliterals⟩
  · intro nodes way layout hcovers
    rw [Variable.parentLiteral_eq_guard hparent, Handle.guard_eq_none, way.anchor_eq]
    refine ⟨nearest_eq_root, fun owner position hnearest => ?_⟩
    obtain ⟨node, hnode, hbit⟩ := exists_of_nearest_eq_bit hnearest
    obtain ⟨w, hw, hwid⟩ := way.exists_owner hnode hbit
    obtain ⟨start, hstart⟩ := hcovers w hw owner hwid
    exact ⟨start, hstart, Handle.guard_of_anchor (way.anchor_eq.trans hnearest) hstart⟩

namespace Parcel

/-- A box for what comes with the gift. -/
def box : Select Nat :=
  ⟨⟨9⟩, "box", gift.handle, .nominal, false, size.domain, extras.anchored⟩

/-- The extras anchor at the gift, and still do when they are put in a box. -/
theorem extras_anchored_at_gift :
    Grown transcript.created ∧ Variable.select extras ∈ transcript.created ∧
    Way transcript.created gift.handle
      [.var (.flag gift), .option size ⟨⟨size.ref, 1⟩, 2⟩, .var (.select size)] ∧
    MandatoryChain Nat gift.handle box.handle ∧ session.layout.Covers transcript.created ∧
    extras.handle.anchor = .bit gift.id 0 ∧
    (∃ w, (Variable.select extras).rebase extras.id box.handle = .ok w ∧
      w.handle = extras.handle) ∧
    (Variable.select extras).parentLiteral session.layout = .ok (some (literal 2 true)) := by
  have hextras : Variable.select extras ∈ transcript.created := .tail _ (.tail _ (.head _))
  have hsize : Variable.select size ∈ transcript.created := .head _
  have hgift : Variable.flag gift ∈ transcript.created := .tail _ (.head _)
  have hoption : (⟨⟨size.ref, 1⟩, 2⟩ : SelectOption Nat) ∈ size.options := by decide
  have hway : Way transcript.created gift.handle
      [.var (.flag gift), .option size ⟨⟨size.ref, 1⟩, 2⟩, .var (.select size)] :=
    .var hgift rfl (.option hsize hoption (.var hsize rfl .root))
  have hchain : MandatoryChain Nat gift.handle box.handle := .snoc (v := .select box) .nil rfl rfl
  obtain ⟨_, _, ⟨⟩, ⟨⟩, _, hanchor, _, hrebase, hliteral⟩ :=
    run.grown.anchored_at_nearest hextras
  obtain ⟨w, hw, _, hhandle, _⟩ := hrebase box.handle hchain
  obtain ⟨start, hstart, hpositive, _⟩ :=
    (hliteral _ hway session.layout run.covers).2 gift.id 0 rfl
  cases hstart
  exact ⟨run.grown, hextras, hway, hchain, run.covers,
    (hanchor _ (.var hextras rfl hway)).1, ⟨w, hw, hhandle⟩, hpositive (by decide)⟩

end Parcel

end ChoiceTree
