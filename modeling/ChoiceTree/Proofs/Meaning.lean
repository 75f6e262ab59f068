import Mathlib
import ChoiceTree.Proofs.Run

/-!
# The meaning of a model

What the constraints of a run come to, constraint by constraint on the one hand
and variable by variable on the other:

* `Variable.Represented` — the truth values of a variable's bits are those of a
  variable of its sort: the options of a select, and the activation bit;
* `Run.holds_constraints` — the constraints hold exactly if the added ones do
  and every variable is represented;
* `Run.isSatisfied_eq` — deciding a model never faults on an assignment that is
  wide enough, whatever its bits;
* `Run.isSatisfied_iff` — the two together, in terms of what the library itself
  says about literals and bits.
-/

namespace ChoiceTree

variable {α V : Type} [BEq V]

/-! ## Represented variables -/

/-- Bit `i` has the truth value `p i`, and the variable's bits represent it: the
set option bits of a select are those of one that is active exactly while its
governor is, and the activation bit of an optional variable is only set while
its parent is active. -/
structure Variable.Represented (layout : Layout) (p : Nat → Bool) (v : Variable V) : Prop where
  admits : ∀ s r, v = .select s → layout.find? s.id = some r →
    s.governor.anchor.active layout p = true → s.Admits (s.placesOn p r.start)
  idle : ∀ s r, v = .select s → layout.find? s.id = some r →
    s.governor.anchor.active layout p = false → s.placesOn p r.start = ∅
  tied : ∀ id r parent, v.id? = some id → layout.find? id = some r → v.parent = .ok parent →
    v.optional = true → p r.start = true → parent.anchor.active layout p = true

/-- The constraints that are emitted for a variable hold exactly if it is
represented. -/
theorem Variable.holds_emitted {v : Variable V} {layout : Layout} {cs : List Constraint}
    {id : VarId} {parent : Handle} {r : Reservation} (hparent : v.parent = .ok parent)
    (hid : v.id? = some id) (hr : layout.find? id = some r) (h : v.emitted layout = .ok cs)
    (p : Nat → Bool) : (∀ c ∈ cs, c.holds p = true) ↔ v.Represented layout p := by
  obtain ⟨implicit, scope, himplicit, hscope, rfl⟩ := emitted_eq_ok.mp h
  rw [List.forall_mem_append, holds_scopeConstraints hscope hparent hid hr p]
  constructor
  · intro h
    obtain ⟨hoptions, htied⟩ := h
    refine ⟨?_, ?_, ?_⟩
    · intro s r' hs hr'
      subst hs
      cases hid
      cases hr.symm.trans hr'
      exact ((Select.holds_implicitConstraints himplicit hr p).mp hoptions).1
    · intro s r' hs hr'
      subst hs
      cases hid
      cases hr.symm.trans hr'
      exact ((Select.holds_implicitConstraints himplicit hr p).mp hoptions).2
    · intro id' r' parent' hid' hr' hparent'
      cases hid.symm.trans hid'
      cases hr.symm.trans hr'
      cases hparent.symm.trans hparent'
      exact htied
  · intro h
    obtain ⟨hadmits, hidle, htied⟩ := h
    refine ⟨?_, htied id r parent hid hr hparent⟩
    cases v with
    | root name => cases himplicit; simp
    | flag f => cases himplicit; simp
    | select s =>
      cases hid
      exact (Select.holds_implicitConstraints himplicit hr p).mpr
        ⟨hadmits s r rfl hr, hidle s r rfl hr⟩

/-! ## The constraints of a run -/

namespace Run

variable {root : String} {t : Transcript V} {b : Builder}

/-- **The constraints of a run hold exactly if the added ones do and every
variable is represented.** -/
theorem holds_constraints (run : Run root t b) (p : Nat → Bool) :
    (∀ c ∈ b.constraints, c.holds p = true) ↔
      (∀ c ∈ t.added, c.holds p = true) ∧ ∀ v ∈ t.created, v.Represented b.layout p := by
  -- what was emitted when a variable was created means what it would mean now
  have hvariable : ∀ v ∈ t.created, ∀ cs, v.emitted b.layout = .ok cs →
      ((∀ c ∈ cs, c.holds p = true) ↔ v.Represented b.layout p) := by
    intro v hv cs hcs
    obtain ⟨id, r, hid, hr, _⟩ := run.exists_reservation hv
    obtain ⟨parent, hparent, _⟩ := run.parent_known hv
    exact Variable.holds_emitted hparent hid hr hcs p
  constructor
  · intro hall
    refine ⟨fun c hc => hall c (run.mem_constraints.mpr (.inl hc)), ?_⟩
    intro v hv
    obtain ⟨cs, hcs⟩ := run.emitted hv
    refine (hvariable v hv cs hcs).mp ?_
    intro c hc
    exact hall c (run.mem_constraints.mpr (.inr ⟨v, hv, cs, hcs, hc⟩))
  · rintro ⟨hadded, hrepresented⟩ c hc
    rcases run.mem_constraints.mp hc with hc | ⟨v, hv, cs, hcs, hc⟩
    · exact hadded c hc
    · exact (hvariable v hv cs hcs).mpr (hrepresented v hv) c hc

/-- What is emitted for the variables only looks at bits of the layout, so all
constraints do if the added ones do. -/
theorem index_lt (run : Run root t b)
    (inside : ∀ c ∈ t.added, ∀ l ∈ c.literals, l.index < b.layout.size) :
    ∀ c ∈ b.constraints, ∀ l ∈ c.literals, l.index < b.layout.size := by
  intro c hc
  rcases run.mem_constraints.mp hc with hc | ⟨v, hv, cs, hcs, hc⟩
  · exact inside c hc
  · obtain ⟨id, r, hid, hr, hlength⟩ := run.exists_reservation hv
    obtain ⟨parent, hparent, hknown⟩ := run.parent_known hv
    exact Variable.index_lt_of_mem_emitted run.packed hparent hid hr hlength
      (run.registered hknown) hcs c hc

variable [Assignment α] [AnsweringAssignment α]

/-- An assignment that is wide enough is decided without a fault. -/
theorem isSatisfied_eq (run : Run root t b)
    (inside : ∀ c ∈ t.added, ∀ l ∈ c.literals, l.index < b.layout.size) (a : α)
    (wide : b.layout.size ≤ Assignment.size a) :
    b.build.isSatisfied a = .ok (b.constraints.all (·.holds (Assignment.bit a))) := by
  refine allM_eq_ok fun c hc => Constraint.isSatisfied_eq_holds a fun l hl => ?_
  exact Nat.lt_of_lt_of_le (run.index_lt inside c hc l hl) wide

/-- The variables are represented in every satisfying assignment. -/
theorem represented_of_isSatisfied (run : Run root t b) {a : α}
    (wide : b.layout.size ≤ Assignment.size a) (sat : b.build.isSatisfied a = .ok true) :
    ∀ v ∈ t.created, v.Represented b.layout (Assignment.bit a) := by
  intro v hv
  obtain ⟨id, r, hid, hr, hlength⟩ := run.exists_reservation hv
  obtain ⟨parent, hparent, hknown⟩ := run.parent_known hv
  obtain ⟨cs, hcs⟩ := run.emitted hv
  refine (Variable.holds_emitted hparent hid hr hcs _).mp ?_
  intro c hc
  have hindex := Variable.index_lt_of_mem_emitted run.packed hparent hid hr hlength
    (run.registered hknown) hcs c hc
  have hdecided := Constraint.isSatisfied_eq_holds a fun l hl =>
    Nat.lt_of_lt_of_le (hindex l hl) wide
  have htrue := allM_eq_true.mp sat c (run.mem_constraints.mpr (.inr ⟨v, hv, cs, hcs, hc⟩))
  exact Except.ok.inj (hdecided.symm.trans htrue)

end Run

/-! ## In terms of literals and bits -/

section

variable [Assignment α]

/-- The truth of what a handle stands for: what is always active is true, anything
else is as true as its literal. -/
def Handle.truth (layout : Layout) (handle : Handle) (a : α) : Except Fault Bool :=
  if handle.anchor = .root then .ok true else do (← handle.toLiteral layout).eval a

/-- As many option bits are set as the select takes if what governs it is true,
and none if it is not. -/
def Select.Governed (layout : Layout) (a : α) (s : Select V) : Prop :=
  ∃ active start, s.governor.truth layout a = .ok active ∧ layout.offsetOf s.id = .ok start ∧
    if active then s.Admits (s.placesOn (Assignment.bit a) start)
    else s.placesOn (Assignment.bit a) start = ∅

/-- The first bit of the variable is only set if its parent is true. -/
def Variable.Scoped (layout : Layout) (a : α) (v : Variable V) : Prop :=
  ∃ id start parent own above, v.id? = some id ∧ layout.offsetOf id = .ok start ∧
    v.parent = .ok parent ∧ Assignment.isSet a start = .ok own ∧
    parent.truth layout a = .ok above ∧ (own = true → above = true)

/-- The truth of a handle with a guard is whether its anchor is active. -/
theorem Handle.truth_eq_active [AnsweringAssignment α] {layout : Layout} (hpacked : layout.Packed)
    {handle : Handle} (hregistered : handle.anchor.Registered layout) {guard : Option Literal}
    (h : handle.guard layout = .ok guard) (a : α) (wide : layout.size ≤ Assignment.size a) :
    handle.truth layout a = .ok (handle.anchor.active layout (Assignment.bit a)) := by
  rcases guard_eq_ok.mp h with ⟨hroot, _⟩ | ⟨hbit, l, hl, _⟩
  · rw [truth, if_pos hroot, hroot, Anchor.active_root]
  · have hindex := index_lt_of_toLiteral hpacked hregistered hl
    rw [truth, if_neg hbit, hl, ok_bind,
      Literal.eval_eq_holds a (Nat.lt_of_lt_of_le hindex wide), holds_of_toLiteral hl]

end

namespace Run

variable {root : String} {t : Transcript V} {b : Builder} [Assignment α] [AnsweringAssignment α]

theorem truth_parent (run : Run root t b) {v : Variable V} (hv : v ∈ t.created)
    {parent : Handle} (hparent : v.parent = .ok parent) (a : α)
    (wide : b.layout.size ≤ Assignment.size a) :
    parent.truth b.layout a = .ok (parent.anchor.active b.layout (Assignment.bit a)) := by
  obtain ⟨cs, hcs⟩ := run.emitted hv
  obtain ⟨guard, hguard⟩ := Variable.exists_guard_parent hparent hcs
  have hregistered := run.registered (run.known_of_parent hv hparent)
  exact Handle.truth_eq_active run.packed hregistered hguard a wide

theorem truth_governor (run : Run root t b) {s : Select V} (hs : .select s ∈ t.created) (a : α)
    (wide : b.layout.size ≤ Assignment.size a) :
    s.governor.truth b.layout a =
      .ok (s.governor.anchor.active b.layout (Assignment.bit a)) := by
  obtain ⟨cs, hcs⟩ := run.emitted hs
  obtain ⟨guard, hguard⟩ := Variable.exists_guard_governor hcs
  have hregistered : s.governor.anchor.Registered b.layout := by
    rw [s.anchor_governor]
    exact run.registered (.handle hs)
  exact Handle.truth_eq_active run.packed hregistered hguard a wide

theorem governed_iff (run : Run root t b) {s : Select V} (hs : .select s ∈ t.created)
    {r : Reservation} (hr : b.layout.find? s.id = some r) (a : α)
    (wide : b.layout.size ≤ Assignment.size a) :
    s.Governed b.layout a ↔
      if s.governor.anchor.active b.layout (Assignment.bit a)
      then s.Admits (s.placesOn (Assignment.bit a) r.start)
      else s.placesOn (Assignment.bit a) r.start = ∅ := by
  have htruth := run.truth_governor hs a wide
  constructor
  · intro hgoverned
    obtain ⟨active, start, htruth', hstart, hcase⟩ := hgoverned
    obtain ⟨r', hr', rfl⟩ := Layout.offsetOf_eq_ok.mp hstart
    cases htruth.symm.trans htruth'
    cases hr.symm.trans hr'
    exact hcase
  · intro hcase
    exact ⟨_, r.start, htruth, Layout.offsetOf_eq_ok.mpr ⟨r, hr, rfl⟩, hcase⟩

theorem scoped_iff (run : Run root t b) {v : Variable V} (hv : v ∈ t.created) {id : VarId}
    {r : Reservation} {parent : Handle} (hid : v.id? = some id)
    (hr : b.layout.find? id = some r) (hparent : v.parent = .ok parent)
    (hoptional : v.optional = true) (a : α) (wide : b.layout.size ≤ Assignment.size a) :
    v.Scoped b.layout a ↔
      (Assignment.bit a r.start = true →
        parent.anchor.active b.layout (Assignment.bit a) = true) := by
  have habove := run.truth_parent hv hparent a wide
  have hown : Assignment.isSet a r.start = .ok (Assignment.bit a r.start) := by
    have hpos := Variable.size_pos_of_optional hoptional
    have hlength := run.length_eq_size hv hid hr
    have hstop := run.packed.stop_le hr
    exact Assignment.isSet_eq_bit a (by omega)
  constructor
  · intro hscoped
    obtain ⟨id', start, parent', own, above, hid', hstart, hparent', hown', habove', himp⟩ :=
      hscoped
    cases hid.symm.trans hid'
    obtain ⟨r', hr', rfl⟩ := Layout.offsetOf_eq_ok.mp hstart
    cases hr.symm.trans hr'
    cases hparent.symm.trans hparent'
    cases hown.symm.trans hown'
    cases habove.symm.trans habove'
    exact himp
  · intro himp
    exact ⟨id, r.start, parent, _, _, hid, Layout.offsetOf_eq_ok.mpr ⟨r, hr, rfl⟩, hparent,
      hown, habove, himp⟩

/-- A select is represented exactly if it is governed and, if optional, scoped; a
flag exactly if it is scoped. -/
theorem represented_iff (run : Run root t b) {v : Variable V} (hv : v ∈ t.created) (a : α)
    (wide : b.layout.size ≤ Assignment.size a) :
    v.Represented b.layout (Assignment.bit a) ↔
      (∀ s, v = .select s → s.Governed b.layout a) ∧
        (v.optional = true → v.Scoped b.layout a) := by
  obtain ⟨id, r, hid, hr, _⟩ := run.exists_reservation hv
  obtain ⟨parent, hparent, _⟩ := run.parent_known hv
  constructor
  · intro h
    constructor
    · intro s hs
      subst hs
      cases hid
      rw [run.governed_iff hv hr a wide]
      split
      · next hactive => exact h.admits s r rfl hr hactive
      · next hidle => exact h.idle s r rfl hr (Bool.eq_false_iff.mpr hidle)
    · intro hoptional
      rw [run.scoped_iff hv hid hr hparent hoptional a wide]
      exact h.tied id r parent hid hr hparent hoptional
  · intro h
    obtain ⟨hgoverned, hscoped⟩ := h
    refine ⟨?_, ?_, ?_⟩
    · intro s r' hs hr' hactive
      subst hs
      have hcase := (run.governed_iff hv hr' a wide).mp (hgoverned s rfl)
      rwa [if_pos hactive] at hcase
    · intro s r' hs hr' hidle
      subst hs
      have hcase := (run.governed_iff hv hr' a wide).mp (hgoverned s rfl)
      rwa [if_neg (Bool.eq_false_iff.mp hidle)] at hcase
    · intro id' r' parent' hid' hr' hparent' hoptional
      exact (run.scoped_iff hv hid' hr' hparent' hoptional a wide).mp (hscoped hoptional)

/-- **Exact meaning of a model.** Every assignment that is wide enough is decided,
and satisfies the model exactly if it satisfies the added constraints, as many
option bits of each select are set as its governor asks for, and no optional
variable is set without its parent. -/
theorem isSatisfied_iff (run : Run root t b)
    (inside : ∀ c ∈ t.added, ∀ l ∈ c.literals, l.index < b.build.width) (a : α)
    (wide : b.build.width ≤ Assignment.size a) :
    ∃ verdict, b.build.isSatisfied a = .ok verdict ∧
      (verdict = true ↔
        (∀ c ∈ t.added, c.isSatisfied a = .ok true) ∧
        (∀ s, .select s ∈ t.created → s.Governed b.layout a) ∧
        (∀ v ∈ t.created, v.optional = true → v.Scoped b.layout a)) := by
  refine ⟨_, run.isSatisfied_eq inside a wide, ?_⟩
  rw [List.all_eq_true, run.holds_constraints]
  have hadded : ∀ c ∈ t.added, (c.holds (Assignment.bit a) = true ↔
      c.isSatisfied a = .ok true) := by
    intro c hc
    rw [Constraint.isSatisfied_eq_holds a fun l hl => Nat.lt_of_lt_of_le (inside c hc l hl) wide,
      Except.ok.injEq]
  constructor
  · intro h
    obtain ⟨hholds, hrepresented⟩ := h
    refine ⟨fun c hc => (hadded c hc).mp (hholds c hc), ?_, ?_⟩
    · intro s hs
      exact ((run.represented_iff hs a wide).mp (hrepresented _ hs)).1 s rfl
    · intro v hv
      exact ((run.represented_iff hv a wide).mp (hrepresented v hv)).2
  · intro h
    obtain ⟨hsatisfied, hgoverned, hscoped⟩ := h
    refine ⟨fun c hc => (hadded c hc).mpr (hsatisfied c hc), ?_⟩
    intro v hv
    refine (run.represented_iff hv a wide).mpr ⟨?_, hscoped v hv⟩
    intro s hs
    subst hs
    exact hgoverned s hv

end Run

/-- The full parcel, with the wish. -/
theorem Parcel.full_verdict :
    (∀ c ∈ Transcript.added (transcript ++ [⟨.addConstraint wish, .added⟩]), ∀ l ∈ c.literals,
      l.index < (session.addConstraint wish).build.width) ∧
    (session.addConstraint wish).build.width ≤ Assignment.size full ∧
    ∃ verdict, (session.addConstraint wish).build.isSatisfied full = .ok verdict ∧
      (verdict = true ↔
        (∀ c ∈ Transcript.added (transcript ++ [⟨.addConstraint wish, .added⟩]),
          c.isSatisfied full = .ok true) ∧
        (∀ s, .select s ∈ Transcript.created (transcript ++ [⟨.addConstraint wish, .added⟩]) →
          s.Governed session.layout full) ∧
        (∀ v ∈ Transcript.created (transcript ++ [⟨.addConstraint wish, .added⟩]),
          v.optional = true → v.Scoped session.layout full)) :=
  ⟨by decide, by decide, run_wish.isSatisfied_iff (by decide) full (by decide)⟩

end ChoiceTree
