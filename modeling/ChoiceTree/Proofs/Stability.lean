import Mathlib
import ChoiceTree.Proofs.ChoiceBits
import ChoiceTree.Proofs.Closure
import ChoiceTree.Proofs.Correspondence

/-!
# Nothing that is settled changes

A session appends and does nothing else: to the layout, to the constraints, and to the
variables it has created. A literal that was taken in the middle of a build means the same
at its end.

* `Run.exists_of_concat`, `Run.unique` — a transcript has one last exchange and leaves one
  session;
* `Builder.Extends`, `Run.extends_later` — what serving one request keeps, and what any
  continuation of a run keeps;
* `Run.settled_stays` — constraints, ranges, literals and decoded values.
-/

namespace ChoiceTree

variable {V : Type} [BEq V]

/-- The session has everything of the earlier one, in the same places. -/
structure Builder.Extends (b later : Builder) : Prop where
  ranges : b.layout.ranges <+: later.layout.ranges
  constraints : b.constraints <+: later.constraints
  grows : b.layout.Grows later.layout
  size_le : b.layout.size ≤ later.layout.size

namespace Builder.Extends

theorem refl (b : Builder) : b.Extends b :=
  ⟨List.prefix_rfl, List.prefix_rfl, .refl _, Nat.le_refl _⟩

theorem trans {a b c : Builder} (hab : a.Extends b) (hbc : b.Extends c) : a.Extends c where
  ranges := hab.ranges.trans hbc.ranges
  constraints := hab.constraints.trans hbc.constraints
  grows := hab.grows.trans hbc.grows
  size_le := Nat.le_trans hab.size_le hbc.size_le

end Builder.Extends

/-- Whatever a request comes to, the session afterwards extends the one before. -/
theorem Builder.Served.extends_after {b b' : Builder} {r : Request V} {answer : Answer V}
    (h : b.Served r answer b') : b.Extends b' := by
  have hgrows := h.grows
  cases h with
  | @created v id cs =>
    refine ⟨?_, List.prefix_append _ _, hgrows, Nat.le_add_right _ _⟩
    show b.layout.ranges <+: (b.layout.extend id v.size).ranges
    rw [Layout.ranges_extend]
    exact List.prefix_append _ _
  | added => exact ⟨List.prefix_rfl, List.prefix_append _ _, hgrows, Nat.le_refl _⟩
  | passed => exact ⟨List.prefix_rfl, List.prefix_rfl, hgrows, Nat.le_refl _⟩

namespace Run

variable {root : String} {t u : Transcript V} {b b' : Builder}

/-! ## Runs and their continuations -/

/-- Before its last exchange a run was a run. -/
theorem exists_of_concat {x : Exchange V} (run : Run root (t ++ [x]) b') :
    ∃ b, Run root t b ∧ (∀ v, x.answer = .created v → Known t.created x.request.parent) ∧
      b.serve x.request = .ok (x.answer, b') := by
  generalize hwhole : t ++ [x] = whole at run
  cases run with
  | start => simp at hwhole
  | serve run hknown hserve =>
    obtain ⟨rfl, hx⟩ := List.append_inj' hwhole rfl
    cases hx
    exact ⟨_, run, hknown, hserve⟩

/-- Nothing but the new session has the empty transcript. -/
theorem eq_new_of_nil (run : Run root ([] : Transcript V) b) : b = .new root := by
  generalize hnil : ([] : Transcript V) = whole at run
  cases run with
  | start => rfl
  | serve => simp at hnil

/-- A transcript leaves one session. -/
theorem unique (run : Run root t b) (other : Run root t b') : b = b' := by
  induction run generalizing b' with
  | start => exact other.eq_new_of_nil.symm
  | serve _ _ hserve ih =>
    obtain ⟨c, hother, _, hserve'⟩ := other.exists_of_concat
    cases ih hother
    cases hserve.symm.trans hserve'
    rfl

/-- **Every continuation of a run extends its session.** -/
theorem extends_later (run : Run root t b) (later : Run root (t ++ u) b') : b.Extends b' := by
  -- the continuation is taken apart from its end
  induction u using List.reverseRecOn generalizing b' with
  | nil =>
    rw [List.append_nil] at later
    rw [run.unique later]
    exact .refl _
  | append_singleton u x ih =>
    rw [← List.append_assoc] at later
    obtain ⟨c, hc, _, hserve⟩ := later.exists_of_concat
    exact (ih hc).trans (Builder.served_of_serve hserve).extends_after

/-! ## What stays -/

/-- The anchor of a known handle stays the same bit. -/
theorem matches_later (run : Run root t b) (later : Run root (t ++ u) b') {h : Handle}
    (hknown : Known t.created h) : h.anchor.Matches b.layout b'.layout h.anchor :=
  .of_grows (run.extends_later later).grows (run.registered hknown)

/-- A variable decodes to what it did under the model of the earlier session. -/
theorem valueOf_later {α : Type} [Assignment α] (run : Run root t b)
    (later : Run root (t ++ u) b') {v : Variable V} (hv : v ∈ t.created) (a : α)
    (wide : b'.build.width ≤ Assignment.size a) :
    b'.build.valueOf v a = b.build.valueOf v a := by
  have hextends := run.extends_later later
  obtain ⟨id, r, parent, guard, hid, hr, _, hparent, _, hguard⟩ := run.exists_placement hv
  have hbefore : b.build.valueOf v a = v.decode a r.start guard :=
    Model.valueOf_eq_decode (m := b.build) hid hr hparent hguard
      (Nat.le_trans hextends.size_le wide)
  have hafter : b'.build.valueOf v a = v.decode a r.start guard :=
    Model.valueOf_eq_decode (m := b'.build) hid (hextends.grows id r hr) hparent
      (Handle.guard_mono hextends.grows hguard) wide
  exact hafter.trans hbefore.symm

/-- **Nothing that is settled changes.** However a run goes on: the constraints and the
ranges so far stay in front, every handle given out so far keeps its literal and every
variable the literal of its parent, and a variable decodes to the same, or faults alike,
under the model of now and of then, in any assignment that is wide enough for both. -/
theorem settled_stays (run : Run root t b) (later : Run root (t ++ u) b') :
    b.build.constraints <+: b'.build.constraints ∧
    b.build.layout.ranges <+: b'.build.layout.ranges ∧
    (∀ h, Known t.created h → h.toLiteral b'.layout = h.toLiteral b.layout) ∧
    (∀ v ∈ Variable.root root :: t.created,
      v.parentLiteral b'.layout = v.parentLiteral b.layout) ∧
    ∀ (α : Type) [Assignment α] (a : α), b'.build.width ≤ Assignment.size a →
      ∀ v ∈ Variable.root root :: t.created, b'.build.valueOf v a = b.build.valueOf v a := by
  have hextends := run.extends_later later
  refine ⟨hextends.constraints, hextends.ranges, ?_, ?_, ?_⟩
  · intro h hknown
    exact (Handle.toLiteral_congr (run.matches_later later hknown)).symm
  · intro v hv
    rcases List.mem_cons.mp hv with rfl | hv
    · rfl
    · obtain ⟨parent, hparent, hknown⟩ := run.parent_known hv
      rw [Variable.parentLiteral_eq_guard hparent, Variable.parentLiteral_eq_guard hparent]
      exact (Handle.guard_congr (run.matches_later later hknown)).symm
  · intro α _ a wide v hv
    rcases List.mem_cons.mp hv with rfl | hv
    · rw [Model.valueOf_root wide, Model.valueOf_root (Nat.le_trans hextends.size_le wide)]
    · exact run.valueOf_later later hv a wide

end Run

namespace Parcel

/-- A card for the second of the extras, copied from the gift. -/
def card : Flag Nat := ⟨⟨6⟩, "gift", .option ⟨extras.ref, 1⟩, 7⟩

/-- The literal of the card's bit not being set. -/
def noCard : Literal := ⟨-8, by decide, by decide, by decide⟩

/-- The wish, a second size that is refused, a name for nothing, and the card. -/
def afterthoughts : Transcript Nat :=
  [⟨.addConstraint wish, .added⟩,
   ⟨.select .nominal "size" false .root [1, 1], .refused (.domain "size" (.duplicate 1))⟩,
   ⟨.defaultName, .named ("$x_" ++ toString 5)⟩,
   ⟨.rebaseFlag gift card.parent, .created (.flag card)⟩]

/-- The session after them. -/
def second : Builder where
  root := "parcel"
  counter := 7
  layout := session.layout.extend ⟨6⟩ 1
  constraints := session.constraints ++
    [wish, .disjunction [noCard, literal ⟨4, by decide⟩ true]]

theorem run_second : Run "parcel" (transcript ++ afterthoughts) second := by
  have hwish := run.serve_known (r := .addConstraint wish) .root rfl
  have hrefused := hwish.serve_refused (r := .select .nominal "size" false .root [1, 1]) rfl
  have hnamed := hrefused.serve_known (r := .defaultName) .root rfl
  exact hnamed.serve_known (r := .rebaseFlag gift card.parent)
    (.option (s := extras) (o := ⟨⟨extras.ref, 1⟩, 4⟩) (.tail _ (.tail _ (.head _)))
      (by decide)) rfl

/-- The parcel is what it was before the afterthoughts. -/
theorem settled_second :
    Run "parcel" transcript session ∧ Run "parcel" (transcript ++ afterthoughts) second ∧
    session.build.constraints <+: second.build.constraints ∧
    session.build.layout.ranges <+: second.build.layout.ranges ∧
    (∀ h, Known transcript.created h → h.toLiteral second.layout = h.toLiteral session.layout) ∧
    (∀ v ∈ Variable.root "parcel" :: transcript.created,
      v.parentLiteral second.layout = v.parentLiteral session.layout) ∧
    ∀ (α : Type) [Assignment α] (a : α), second.build.width ≤ Assignment.size a →
      ∀ v ∈ Variable.root "parcel" :: transcript.created,
        second.build.valueOf v a = session.build.valueOf v a :=
  ⟨run, run_second, run.settled_stays run_second⟩

end Parcel

end ChoiceTree
