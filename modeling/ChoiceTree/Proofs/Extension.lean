import Mathlib
import ChoiceTree.Proofs.Locality
import ChoiceTree.Proofs.Outcomes
import ChoiceTree.Proofs.Stability

/-!
# What a new variable adds to the solutions

A new variable comes with bits of its own, and its constraints leave the older bits alone:
whatever satisfied the model before goes on to as many solutions as the variable has states.
These are all its states while its parent is active, and only its absence while it is not.

* `BitArray.initial`, `Model.extensions` — the first bits of an assignment, and the solutions
  that begin with given ones;
* `Variable.statesUnder`, `Variable.extension` — the states that are left to a variable, and
  an assignment with the bits of one of them behind it;
* `Variable.Represented.read_mem_statesUnder`, `Variable.represented_of_mem_statesUnder` — the
  bits that represent a variable are those of one of these states;
* `Run.isSatisfied_created`, `Run.bijOn_extension` — what creating a variable comes to for the
  model and for its solutions;
* `Run.extends_exactly` — no solution is lost and none is gained, with the count.
-/

namespace ChoiceTree

variable {α V : Type}

/-- The first `width` bits of an assignment. -/
def BitArray.initial [Assignment α] (width : Nat) (a : α) : BitArray :=
  .ofFn width (Assignment.bit a)

/-- The assignments of the width of the model that satisfy it and begin with the bits of
`a`. -/
def Model.extensions [Assignment α] (m : Model) (a : α) : Set BitArray :=
  {c | c.size = m.width ∧ Agree c a 0 (Assignment.size a) ∧ m.isSatisfied c = .ok true}

/-- Bits of a layout stay active while it grows and they stay what they are. -/
theorem Anchor.active_congr {layout layout' : Layout} (hpacked : layout.Packed)
    (hgrows : layout.Grows layout') {p q : Nat → Bool} (h : ∀ i < layout.size, p i = q i)
    {anchor : Anchor} (hregistered : anchor.Registered layout) :
    anchor.active layout' p = anchor.active layout q := by
  cases anchor with
  | root => rfl
  | bit owner position =>
    obtain ⟨r, hr, hposition⟩ := hregistered
    have hstop := hpacked.stop_le hr
    rw [active_bit (hgrows owner r hr), active_bit hr, h _ (by omega)]

variable [BEq V]

/-! ## The states that are left to a variable -/

/-- The choice that says the same of all variables. -/
def Choice.always (state : Option (Finset Nat)) : Choice := ⟨fun _ => state⟩

/-- What is absent has no bit set. -/
theorem Choice.bitOf_absent {c : Choice} {v : Variable V} {id : VarId} (hid : v.id? = some id)
    (h : c.places id = none) (i : Nat) : c.bitOf v i = false := by
  rw [bitOf, hid, Option.any_some, h]
  split <;> rfl

namespace Variable

/-- The states of a variable whose parent is active or, without an active parent, only its
absence. -/
def statesUnder (active : Bool) (v : Variable V) : Finset (Option (Finset Nat)) :=
  if active then v.states else {none}

variable {v : Variable V} {layout : Layout} {p : Nat → Bool} {id : VarId} {r : Reservation}
  {parent : Handle} {state : Option (Finset Nat)}

/-- A state in which the variable is present asks for an active parent. -/
theorem mem_states_of_statesUnder {active : Bool} {places : Finset Nat}
    (h : some places ∈ v.statesUnder active) : active = true ∧ some places ∈ v.states := by
  cases active with
  | false => cases Finset.mem_singleton.mp h
  | true => exact ⟨rfl, h⟩

/-- A mandatory variable is present exactly while its parent is active. -/
theorem isSome_of_mem_statesUnder (hid : v.id? = some id) (hmandatory : v.optional = false)
    {active : Bool} (h : state ∈ v.statesUnder active) : state.isSome = active := by
  cases active with
  | false => rw [Finset.mem_singleton.mp h, Option.isSome_none]
  | true => exact isSome_of_mem_states hid hmandatory h

theorem admits_of_mem_statesUnder {s : Select V} {active : Bool} {places : Finset Nat}
    (h : some places ∈ (select s).statesUnder active) :
    places ⊆ Finset.range s.domain.size ∧ s.Admits places := by
  obtain ⟨_, hmem⟩ := mem_states_of_statesUnder h
  exact Select.mem_admitted.mp ((mem_states_select.mp hmem).1 places rfl)

/-- What the bits say of a represented variable is one of the states that are left to it. -/
theorem Represented.read_mem_statesUnder (h : v.Represented layout p) (hid : v.id? = some id)
    (hr : layout.find? id = some r) (hparent : v.parent = .ok parent) :
    v.read layout p ∈ v.statesUnder (parent.anchor.active layout p) := by
  cases hactive : parent.anchor.active layout p with
  | false =>
    have habsent : v.handle.anchor.active layout p = false := by
      by_contra hpresent
      rw [h.active_parent hid hr hparent (Bool.eq_true_of_not_eq_false hpresent)] at hactive
      cases hactive
    rw [read, habsent]
    exact Finset.mem_singleton_self none
  | true =>
    cases v with
    | root name => cases hid
    | flag f =>
      rw [read]
      show _ ∈ ({none, some ∅} : Finset (Option (Finset Nat)))
      split
      · exact Finset.mem_insert_of_mem (Finset.mem_singleton_self _)
      · exact Finset.mem_insert_self _ _
    | select s =>
      cases hid
      refine mem_states_select.mpr ⟨?_, ?_⟩
      · intro places hread
        exact Select.mem_admitted.mpr (h.admits_read hr hread)
      · intro hmandatory
        rw [isSome_read, anchor_handle_of_mandatory hparent hmandatory, hactive]

/-- Under the bits of a state that is left to it, a variable is present in the state exactly
if what it anchors at is active. -/
theorem isSome_eq_active (hid : v.id? = some id) (hr : layout.find? id = some r)
    (hparent : v.parent = .ok parent)
    (hstate : state ∈ v.statesUnder (parent.anchor.active layout p))
    (h : (Choice.always state).Encoded layout p v) :
    state.isSome = v.handle.anchor.active layout p := by
  cases hoptional : v.optional with
  | true =>
    rw [anchor_handle_of_optional hid hoptional, Anchor.active_bit hr]
    exact (h.activation hid hr hoptional).symm
  | false =>
    rw [anchor_handle_of_mandatory hparent hoptional]
    exact isSome_of_mem_statesUnder hid hoptional hstate

/-- These bits represent the variable. -/
theorem represented_of_mem_statesUnder (hid : v.id? = some id) (hr : layout.find? id = some r)
    (hparent : v.parent = .ok parent)
    (hstate : state ∈ v.statesUnder (parent.anchor.active layout p))
    (h : (Choice.always state).Encoded layout p v) : v.Represented layout p := by
  refine h.represented hid hparent ?_ (isSome_eq_active hid hr hparent hstate h) ?_
  · rintro s places rfl (rfl : state = some places)
    exact admits_of_mem_statesUnder hstate
  · intro (hpresent : state.isSome = true)
    obtain ⟨places, rfl⟩ := Option.isSome_iff_exists.mp hpresent
    exact (mem_states_of_statesUnder hstate).1

/-- The state can be read off them. -/
theorem read_eq_of_mem_statesUnder (hid : v.id? = some id) (hr : layout.find? id = some r)
    (hparent : v.parent = .ok parent)
    (hstate : state ∈ v.statesUnder (parent.anchor.active layout p))
    (h : (Choice.always state).Encoded layout p v) : v.read layout p = state := by
  have hpresent := isSome_eq_active hid hr hparent hstate h
  refine eq_of_isSome_eq (isSome_read.trans hpresent.symm) fun places places' hread hsome => ?_
  subst hsome
  cases v with
  | root name => cases hid
  | flag f =>
    -- nothing but its presence is said of a flag
    obtain ⟨_, hmem⟩ := mem_states_of_statesUnder hstate
    have hactive : (flag f).handle.anchor.active layout p = true := hpresent.symm
    rw [read, if_pos hactive] at hread
    rcases Finset.mem_insert.mp hmem with hnone | hempty
    · cases hnone
    · exact Option.some.inj (hread.symm.trans (Finset.mem_singleton.mp hempty).symm)
  | select s =>
    cases hid
    obtain ⟨_, hplaces⟩ := (mem_read hr).mp hread
    rw [← hplaces, h.placesOn_eq hr rfl (admits_of_mem_statesUnder hstate).1]

/-! ## Assignments with more bits -/

variable [Assignment α]

/-- The bits of the assignment, with those of the variable in the state behind them. -/
def extension (v : Variable V) (a : α) (state : Option (Finset Nat)) : BitArray :=
  .ofFn (Assignment.size a + v.size) fun i =>
    if i < Assignment.size a then Assignment.bit a i
    else (Choice.always state).bitOf v (i - Assignment.size a)

theorem bit_extension_add (a : α) (state : Option (Finset Nat)) {i : Nat} (hi : i < v.size) :
    (v.extension a state).bit (Assignment.size a + i) = (Choice.always state).bitOf v i := by
  have hlt : Assignment.size a + i < Assignment.size a + v.size := by omega
  rw [extension, BitArray.bit_ofFn, decide_eq_true hlt, Bool.true_and,
    if_neg (Nat.not_lt.mpr (Nat.le_add_right _ _)), Nat.add_sub_cancel_left]

/-- In the absence of the variable, no bit is set behind the assignment. -/
theorem isSet_extension_none (hid : v.id? = some id) (a : α) {i : Nat}
    (hi : Assignment.size a ≤ i) (hlt : i < Assignment.size a + v.size) :
    (v.extension a none).isSet i = .ok false := by
  have hset : (v.extension a none).isSet i = .ok _ := BitArray.isSet_ofFn _ hlt
  rw [hset, if_neg (Nat.not_lt.mpr hi), Choice.bitOf_absent hid rfl]

/-- Where the bits of the variable are those behind the assignment, they are those of the
state. -/
theorem encoded_extension {a : α} (hid : v.id? = some id)
    (hr : layout.find? id = some ⟨id, Assignment.size a, v.size⟩) :
    (Choice.always state).Encoded layout (Assignment.bit (v.extension a state)) v := by
  intro id' r' hid' hr' i hi
  cases hid.symm.trans hid'
  cases hr.symm.trans hr'
  rw [BitArray.bit_eq, bit_extension_add a state hi]

variable [AnsweringAssignment α]

theorem agree_extension (a : α) (state : Option (Finset Nat)) :
    Agree (v.extension a state) a 0 (Assignment.size a) := by
  intro i _ hi
  have hlt : i < Assignment.size a + v.size := by omega
  rw [extension, BitArray.isSet_ofFn _ hlt, if_pos hi, Assignment.isSet_eq_bit a hi]

/-- Where the bits of the variable are those behind the assignment, no other assignment of the
width begins like it and has those of the state. -/
theorem extension_eq {a : α} {c : BitArray} (hid : v.id? = some id)
    (hr : layout.find? id = some ⟨id, Assignment.size a, v.size⟩)
    (hsize : c.size = Assignment.size a + v.size) (hagree : Agree c a 0 (Assignment.size a))
    (h : (Choice.always state).Encoded layout (Assignment.bit c) v) :
    v.extension a state = c := by
  refine BitArray.ext_bit hsize.symm fun i hi => ?_
  by_cases hold : i < Assignment.size a
  · have hsame := (agree_extension (v := v) a state).bit_eq (Nat.zero_le i) hold
    rw [← BitArray.bit_eq, ← BitArray.bit_eq, hsame, hagree.bit_eq (Nat.zero_le i) hold]
  · obtain ⟨j, rfl⟩ := Nat.exists_eq_add_of_le (Nat.not_lt.mp hold)
    have hj : j < v.size := Nat.lt_of_add_lt_add_left hi
    have hbit := h id _ hid hr j hj
    rw [bit_extension_add a state hj, ← hbit, BitArray.bit_eq]

end Variable

/-! ## What creating a variable comes to -/

/-- The session afterwards has laid out the new variable at the end and emitted its
constraints. -/
theorem Builder.exists_created {b b' : Builder} {r : Request V} {v : Variable V}
    (h : b.serve r = .ok (.created v, b')) :
    ∃ id cs, v.id? = some id ∧ v.parent = .ok r.parent ∧
      b'.layout.find? id = some ⟨id, b.layout.size, v.size⟩ ∧
      b'.layout.size = b.layout.size + v.size ∧ v.emitted b'.layout = .ok cs ∧
      b'.constraints = b.constraints ++ cs := by
  cases served_of_serve h with
  | created hid hparent _ _ hnew _ hcs =>
    exact ⟨_, _, hid, hparent, Layout.find?_extend_self _ _ _, rfl, hcs, rfl⟩
  | passed hnone => cases hnone

namespace Run

variable {root : String} {t : Transcript V} {b b' : Builder} {r : Request V} {v : Variable V}
  [Assignment α]

/-- The bit that the parent of the new variable anchors at is an old one. -/
theorem active_parent_congr (run : Run root t b) (hknown : Known t.created r.parent)
    (hserve : b.serve r = .ok (.created v, b')) {a : α} {c : BitArray}
    (hsize : Assignment.size a = b.build.width) (hagree : Agree c a 0 (Assignment.size a)) :
    r.parent.anchor.active b'.layout (Assignment.bit c) =
      r.parent.anchor.active b.layout (Assignment.bit a) := by
  refine Anchor.active_congr run.packed (Builder.served_of_serve hserve).grows ?_
    (run.registered hknown)
  intro i hi
  exact hagree.bit_eq (Nat.zero_le i) (Nat.lt_of_lt_of_eq hi hsize.symm)

variable [AnsweringAssignment α]

/-- Assignments with the same bits are decided alike. -/
theorem isSatisfied_congr {β : Type} [Assignment β] [AnsweringAssignment β] (run : Run root t b)
    (inside : ∀ c ∈ t.added, ∀ l ∈ c.literals, l.index < b.build.width) {a : α} {c : β}
    (wide : b.build.width ≤ Assignment.size a) (wide' : b.build.width ≤ Assignment.size c)
    (agree : Agree a c 0 b.build.width) : b.build.isSatisfied a = b.build.isSatisfied c := by
  obtain ⟨verdict, ha, hc⟩ := run.exists_verdict wide wide' inside agree
  rw [ha, hc]

/-- The first bits of an assignment decide the model like the assignment itself. -/
theorem isSatisfied_initial (run : Run root t b)
    (inside : ∀ c ∈ t.added, ∀ l ∈ c.literals, l.index < b.build.width) (a : α)
    (wide : b.build.width ≤ Assignment.size a) :
    b.build.isSatisfied (BitArray.initial b.build.width a) = b.build.isSatisfied a := by
  refine run.isSatisfied_congr inside (Nat.le_refl _) wide fun i _ hi => ?_
  rw [BitArray.initial, BitArray.isSet_ofFn _ hi,
    Assignment.isSet_eq_bit a (Nat.lt_of_lt_of_le hi wide)]

/-- **The model with a new variable is satisfied** exactly where the one before is and the
variable is represented. -/
theorem isSatisfied_created (run : Run root t b) (hknown : Known t.created r.parent)
    (hserve : b.serve r = .ok (.created v, b')) (a : α)
    (wide : b'.build.width ≤ Assignment.size a) :
    b'.build.isSatisfied a = .ok true ↔
      b.build.isSatisfied a = .ok true ∧ v.Represented b'.layout (Assignment.bit a) := by
  obtain ⟨id, cs, hid, hparent, hr, _, hcs, hconstraints⟩ := Builder.exists_created hserve
  have hpacked := (run.serve_known hknown hserve).packed
  have hgrows := (Builder.served_of_serve hserve).grows
  have hindex := Variable.index_lt_of_mem_emitted hpacked hparent hid hr rfl
    ((run.registered hknown).mono hgrows) hcs
  -- what is emitted for the new variable is decided inside the new width
  have hdecided : ∀ c ∈ cs, c.isSatisfied a = .ok (c.holds (Assignment.bit a)) :=
    fun c hc => Constraint.isSatisfied_eq_holds a fun l hl =>
      Nat.lt_of_lt_of_le (hindex c hc l hl) wide
  show b'.constraints.allM (Constraint.isSatisfied a) = .ok true ↔
    b.constraints.allM (Constraint.isSatisfied a) = .ok true ∧ _
  rw [allM_eq_true, allM_eq_true, hconstraints, List.forall_mem_append,
    ← Variable.holds_emitted hparent hid hr hcs]
  refine and_congr_right fun _ => forall₂_congr fun c hc => ?_
  rw [hdecided c hc, Except.ok.injEq]

/-- **The extensions of a solution are the states that are left to the new variable**, written
behind it. -/
theorem bijOn_extension (run : Run root t b)
    (inside : ∀ c ∈ t.added, ∀ l ∈ c.literals, l.index < b.build.width)
    (hknown : Known t.created r.parent) (hserve : b.serve r = .ok (.created v, b')) {a : α}
    (hsize : Assignment.size a = b.build.width) (sat : b.build.isSatisfied a = .ok true) :
    Set.BijOn (v.extension a)
      (v.statesUnder (r.parent.anchor.active b.layout (Assignment.bit a)))
      (b'.build.extensions a) := by
  obtain ⟨id, cs, hid, hparent, hr, hwidth, _, _⟩ := Builder.exists_created hserve
  have hsize' : Assignment.size a = b.layout.size := hsize
  rw [← hsize'] at hr hwidth
  have hencoded : ∀ state, (Choice.always state).Encoded b'.layout
      (Assignment.bit (v.extension a state)) v := fun state => Variable.encoded_extension hid hr
  -- the parent of the variable is as active in the extension as in what is extended
  have hactive : ∀ state, r.parent.anchor.active b'.layout
      (Assignment.bit (v.extension a state)) = _ := fun state =>
    run.active_parent_congr hknown hserve hsize (Variable.agree_extension (v := v) a state)
  refine ⟨?maps, ?injective, ?onto⟩
  case maps =>
    intro state hstate
    have hagree := Variable.agree_extension (v := v) a state
    have hwide : b'.build.width ≤ Assignment.size (v.extension a state) := Nat.le_of_eq hwidth
    have hbefore : b.build.isSatisfied (v.extension a state) = b.build.isSatisfied a := by
      refine run.isSatisfied_congr inside ?_ (Nat.le_of_eq hsize.symm) (hsize ▸ hagree)
      rw [← hsize]
      exact Nat.le_add_right _ _
    have hrepresented := Variable.represented_of_mem_statesUnder hid hr hparent
      ((hactive state).symm ▸ hstate) (hencoded state)
    exact ⟨hwidth.symm, hagree, (run.isSatisfied_created hknown hserve _ hwide).mpr
      ⟨hbefore.trans sat, hrepresented⟩⟩
  case injective =>
    intro state hstate state' hstate' heq
    have hread := Variable.read_eq_of_mem_statesUnder hid hr hparent
      ((hactive state).symm ▸ hstate) (hencoded state)
    have hread' := Variable.read_eq_of_mem_statesUnder hid hr hparent
      ((hactive state').symm ▸ hstate') (hencoded state')
    rw [← hread, ← hread', heq]
  case onto =>
    rintro c ⟨hcsize, hagree, hsat⟩
    have hwide : b'.build.width ≤ Assignment.size c := Nat.le_of_eq hcsize.symm
    have hrepresented := ((run.isSatisfied_created hknown hserve c hwide).mp hsat).2
    refine ⟨v.read b'.layout (Assignment.bit c), ?_, ?_⟩
    · rw [← run.active_parent_congr hknown hserve hsize hagree]
      exact hrepresented.read_mem_statesUnder hid hr hparent
    · exact Variable.extension_eq hid hr (hcsize.trans hwidth) hagree (hrepresented.encoded hid rfl)

/-- The truth of the parent, before the variable is created, is whether its anchor is
active. -/
theorem truth_parent_created (run : Run root t b) (hknown : Known t.created r.parent)
    (hserve : b.serve r = .ok (.created v, b')) (a : α)
    (wide : b.build.width ≤ Assignment.size a) :
    r.parent.truth b.layout a = .ok (r.parent.anchor.active b.layout (Assignment.bit a)) := by
  obtain ⟨_, cs, _, hparent, _, _, hcs, _⟩ := Builder.exists_created hserve
  obtain ⟨guard, hguard⟩ := Variable.exists_guard_parent hparent hcs
  have hregistered := run.registered hknown
  have hsame := Handle.guard_congr
    (Anchor.Matches.of_grows (Builder.served_of_serve hserve).grows hregistered)
  exact Handle.truth_eq_active run.packed hregistered (hsame.trans hguard) a wide

/-- **A new variable extends the model conservatively, with its outcomes as the count.** The
first bits of whatever satisfies the model with the variable satisfy the model before. And
whatever has the width of the model before and satisfies it goes on to as many solutions as
the variable has outcomes if its parent is true, which a parent that anchors at the root always
is, and otherwise to a single one, in which no new bit is set. -/
theorem extends_exactly (run : Run root t b)
    (inside : ∀ c ∈ t.added, ∀ l ∈ c.literals, l.index < b.build.width)
    (hknown : Known t.created r.parent) (hserve : b.serve r = .ok (.created v, b')) :
    (∀ (α : Type) [Assignment α] [AnsweringAssignment α] (a : α),
      b.build.width ≤ Assignment.size a → b'.build.isSatisfied a = .ok true →
      b.build.isSatisfied (BitArray.initial b.build.width a) = .ok true) ∧
    ∀ (α : Type) [Assignment α] [AnsweringAssignment α] (a : α),
      Assignment.size a = b.build.width → b.build.isSatisfied a = .ok true →
      ∃ parent active, v.parent = .ok parent ∧ parent.truth b.layout a = .ok active ∧
        (active = true → (b'.build.extensions a).encard = v.outcomes) ∧
        (active = false → ∃ c, b'.build.extensions a = {c} ∧
          ∀ i, b.build.width ≤ i → i < b'.build.width → c.isSet i = .ok false) := by
  obtain ⟨id, _, hid, hparent, _, hwidth, _, hconstraints⟩ := Builder.exists_created hserve
  constructor
  · intro α _ _ a wide sat
    rw [run.isSatisfied_initial inside a wide]
    refine allM_eq_true.mpr fun c hc => allM_eq_true.mp sat c ?_
    show c ∈ b'.constraints
    rw [hconstraints]
    exact List.mem_append_left _ hc
  · intro α _ _ a hsize sat
    have hbij := run.bijOn_extension inside hknown hserve hsize sat
    refine ⟨r.parent, _, hparent,
      run.truth_parent_created hknown hserve a (Nat.le_of_eq hsize.symm), ?_, ?_⟩
    · intro hactive
      rw [hactive] at hbij
      rw [← hbij.image_eq, hbij.injOn.encard_image, Set.encard_coe_eq_coe_finsetCard,
        Variable.statesUnder, if_pos rfl, v.card_states]
    · intro hidle
      rw [hidle] at hbij
      refine ⟨v.extension a none, ?_, ?_⟩
      · rw [← hbij.image_eq, Variable.statesUnder, if_neg Bool.false_ne_true,
          Finset.coe_singleton, Set.image_singleton]
      · intro i hi hlt
        have hwidth' : b'.build.width = b.build.width + v.size := hwidth
        rw [← hsize] at hi hwidth'
        exact Variable.isSet_extension_none hid a hi (hwidth' ▸ hlt)

end Run

namespace Parcel

/-- The ribbons, brought over to go around the first of the extras. -/
def bow : Select Nat :=
  ⟨⟨4⟩, "ribbons", wrap.parent, .multiple, false, ribbons.domain, .inr (by decide)⟩

/-- A small parcel, which has nothing in it. -/
def small : Bools := ⟨[true, false, false, false, false, false, false]⟩

/-- There are three ways to tie the ribbons around a full parcel, and one around a small
one. -/
theorem extends_bow :
    (∀ c ∈ transcript.added, ∀ l ∈ c.literals, l.index < session.build.width) ∧
    Known transcript.created (Request.rebaseSelect ribbons wrap.parent).parent ∧
    ∃ b', session.serve (.rebaseSelect ribbons wrap.parent) = .ok (.created (.select bow), b') ∧
      (b'.build.extensions full).encard = 3 ∧
      ∃ c, b'.build.extensions small = {c} ∧
        ∀ i, session.build.width ≤ i → i < b'.build.width → c.isSet i = .ok false := by
  have hinside : ∀ c ∈ transcript.added, ∀ l ∈ c.literals, l.index < session.build.width := by
    decide
  have hknown : Known transcript.created (Request.rebaseSelect ribbons wrap.parent).parent :=
    .option (s := extras) (o := ⟨⟨extras.ref, 0⟩, 3⟩) (.tail _ (.tail _ (.head _))) (by decide)
  obtain ⟨b', hserve⟩ : ∃ b', session.serve (.rebaseSelect ribbons wrap.parent) =
      .ok (.created (.select bow), b') := ⟨_, rfl⟩
  have hextends := run.extends_exactly hinside hknown hserve
  obtain ⟨_, _, ⟨⟩, ⟨⟩, hcount, _⟩ := hextends.2 Bools full rfl rfl
  obtain ⟨_, _, ⟨⟩, ⟨⟩, _, hsingle⟩ := hextends.2 Bools small rfl rfl
  exact ⟨hinside, hknown, b', hserve, hcount rfl, hsingle rfl⟩

end Parcel

end ChoiceTree
