import Mathlib
import ChoiceTree.Proofs.ChoiceBits

/-!
# What a satisfying assignment decodes to

**Decoding is sound**: under an assignment that satisfies the model of a run, no
variable faults, and what the variables decode to is a choice that the tree
allows. The decoder looks at one parent at a time; that everything above a
variable that decodes to something does so too is the work of the constraints.

* `Run.decodes_consistently` — the choice, and the option bits it comes from;
* `Run.literals_agree` — the literal of a handle is true exactly if what the
  handle stands for is in the decoded result.
-/

namespace ChoiceTree

variable {α V : Type} [BEq V]

/-- An option is chosen exactly if its value is among those returned for its
select. -/
theorem Choice.chosen_option_iff_mem {c : Choice} {s : Select V}
    (hconsistent : c.Consistent (.select s)) (hreflexive : s.domain.Reflexive)
    {o : SelectOption V} (ho : o ∈ s.options) :
    c.Chosen o.handle ↔ ∃ selection, c.decoded (.select s) = some (.select selection) ∧
      o.value ∈ selection.toList := by
  obtain ⟨_, _, hvalue⟩ := Select.mem_options ho
  rw [chosen_option ho, decoded]
  cases hplaces : c.places s.id with
  | none => simp
  | some places =>
    obtain ⟨hrange, hadmits⟩ := hconsistent.admitted s places rfl hplaces
    obtain ⟨selection, hselection, hreturns⟩ := Select.exists_selection hrange hadmits
    have hmem : o.value ∈ selection.toList ↔ o.ref.index ∈ places := by
      rw [hreturns.toList_eq]
      exact Select.mem_valuesAt_option hreflexive hvalue
    rw [Option.bind_some, hselection, Option.map_some]
    constructor
    · intro h
      obtain ⟨places', hsome, hi⟩ := h
      cases hsome
      exact ⟨selection, rfl, hmem.mpr hi⟩
    · intro h
      obtain ⟨selection', hsome, hi⟩ := h
      cases hsome
      exact ⟨places, rfl, hmem.mp hi⟩

namespace Run

variable {root : String} {t : Transcript V} {b : Builder} [Assignment α] [LawfulAssignment α]

/-- **Decoding is sound.** Under a satisfying assignment every variable decodes
without a fault, and all of them to one consistent choice: a mandatory select is
chosen exactly with its parent, anything optional only with its parent, hence
everything above a chosen variable is chosen. A chosen select returns the options
whose bits are set, in declared order: one of them if it is nominal, at least one
if it is multiple. -/
theorem decodes_consistently (run : Run root t b) (a : α)
    (wide : b.build.width ≤ Assignment.size a) (sat : b.build.isSatisfied a = .ok true) :
    ∃ c : Choice,
      (∀ v ∈ t.created, b.build.valueOf v a = .ok (c.decoded v) ∧
        ((c.decoded v).isSome = true ↔ c.Chosen v.handle) ∧ c.Consistent v ∧
        (c.Chosen v.handle → ∀ h, Choice.Above t.created h v.handle → c.Chosen h)) ∧
      ∀ s, .select s ∈ t.created → c.Chosen s.handle →
        ∃ start selection, b.layout.offsetOf s.id = .ok start ∧
          c.places s.id = some (s.placesOn (Assignment.bit a) start) ∧
          b.build.valueOf (.select s) a = .ok (some (.select selection)) ∧
          s.Returns (s.placesOn (Assignment.bit a) start) selection ∧
          selection.toList.Sublist s.domain.values := by
  have hrepresented := run.represented_of_isSatisfied wide sat
  have hconsistent := run.consistent_read hrepresented
  have hencoded := run.encoded_read hrepresented
  have hvalue := run.valueOf_eq wide hconsistent hencoded
  refine ⟨Choice.read b.layout (Assignment.bit a) t.created, ?_, ?_⟩
  · intro v hv
    obtain ⟨id, _, hid, _, _⟩ := run.exists_reservation hv
    exact ⟨hvalue v hv, Choice.isSome_decoded hid (hconsistent v hv), hconsistent v hv,
      fun hchosen h habove => Choice.chosen_of_above hconsistent habove hchosen⟩
  · intro s hs hchosen
    obtain ⟨id, r, hid, hr, _⟩ := run.exists_reservation hs
    cases hid
    have hsome := (Choice.chosen_handle (v := .select s) rfl).mp hchosen
    obtain ⟨places, hplaces⟩ := Option.isSome_iff_exists.mp hsome
    obtain ⟨hrange, hadmits⟩ := (hconsistent _ hs).admitted s places rfl hplaces
    obtain ⟨selection, hselection, hreturns⟩ := Select.exists_selection hrange hadmits
    have hset := (hencoded _ hs).placesOn_eq hr hplaces hrange
    refine ⟨r.start, selection, Layout.offsetOf_eq_ok.mpr ⟨r, hr, rfl⟩, ?_, ?_, ?_, ?_⟩
    · rw [hset, hplaces]
    · rw [hvalue _ hs, Choice.decoded, hplaces, Option.bind_some, hselection, Option.map_some]
    · rw [hset]
      exact hreturns
    · rw [hreturns.toList_eq]
      exact s.valuesAt_sublist places

end Run

/-- The full parcel decodes to a consistent choice. -/
theorem Parcel.full_decodes :
    session.build.width ≤ Assignment.size full ∧ session.build.isSatisfied full = .ok true ∧
    ∃ c : Choice,
      (∀ v ∈ transcript.created, session.build.valueOf v full = .ok (c.decoded v) ∧
        ((c.decoded v).isSome = true ↔ c.Chosen v.handle) ∧ c.Consistent v ∧
        (c.Chosen v.handle → ∀ h, Choice.Above transcript.created h v.handle → c.Chosen h)) ∧
      ∀ s, .select s ∈ transcript.created → c.Chosen s.handle →
        ∃ start selection, session.layout.offsetOf s.id = .ok start ∧
          c.places s.id = some (s.placesOn (Assignment.bit full) start) ∧
          session.build.valueOf (.select s) full = .ok (some (.select selection)) ∧
          s.Returns (s.placesOn (Assignment.bit full) start) selection ∧
          selection.toList.Sublist s.domain.values :=
  ⟨by decide, rfl, run.decodes_consistently full (by decide) rfl⟩

namespace Run

variable {root : String} {t : Transcript V} {b : Builder} [Assignment α] [LawfulAssignment α]

/-- **Literals agree with decoding.** Under a satisfying assignment of a model within
the literal range, a variable that anchors at the root decodes to something, and
the literal of any other handle is true exactly if its variable decodes to
something or, for an option, its value is among those returned. -/
theorem literals_agree (run : Run root t b) (narrow : b.build.width ≤ Literal.indexBound)
    (reflexive : ∀ s, .select s ∈ t.created → s.domain.Reflexive) (a : α)
    (wide : b.build.width ≤ Assignment.size a) (sat : b.build.isSatisfied a = .ok true) :
    (∀ v ∈ t.created, ∃ value, b.build.valueOf v a = .ok value ∧
      (v.handle.anchor = .root → value.isSome = true) ∧
      (v.handle.anchor ≠ .root → ∃ l truth, v.toLiteral b.layout = .ok l ∧
        l.eval a = .ok truth ∧ (truth = true ↔ value.isSome = true))) ∧
    ∀ s, .select s ∈ t.created → ∀ o ∈ s.options,
      ∃ value l truth, b.build.valueOf (.select s) a = .ok value ∧
        o.toLiteral b.layout = .ok l ∧ l.eval a = .ok truth ∧
        (truth = true ↔ ∃ selection, value = some (.select selection) ∧
          o.value ∈ selection.toList) := by
  have hrepresented := run.represented_of_isSatisfied wide sat
  have hconsistent := run.consistent_read hrepresented
  have hencoded := run.encoded_read hrepresented
  have hvalue := run.valueOf_eq wide hconsistent hencoded
  -- the literal of any handle that has one says whether the handle is chosen
  have hliteral : ∀ h, Known t.created h → h.anchor ≠ .root →
      ∃ l truth, h.toLiteral b.layout = .ok l ∧ l.eval a = .ok truth ∧
        (truth = true ↔ (Choice.read b.layout (Assignment.bit a) t.created).Chosen h) := by
    intro h hknown hbit
    have hregistered := run.registered hknown
    obtain ⟨l, hl⟩ := Handle.exists_literal run.packed hregistered hbit narrow
    have hindex := Handle.index_lt_of_toLiteral run.packed hregistered hl
    refine ⟨l, _, hl, Literal.eval_eq_holds a (Nat.lt_of_lt_of_le hindex wide), ?_⟩
    rw [Handle.holds_of_toLiteral hl, run.chosen_iff_active hconsistent hencoded hknown]
  constructor
  · intro v hv
    obtain ⟨id, _, hid, _, _⟩ := run.exists_reservation hv
    have hiff := Choice.isSome_decoded hid (hconsistent v hv)
    refine ⟨_, hvalue v hv, ?_, ?_⟩
    · intro hroot
      rw [hiff, run.chosen_read hv, hroot, Anchor.active_root]
    · intro hbit
      obtain ⟨l, truth, hl, heval, htruth⟩ := hliteral v.handle (.handle hv) hbit
      exact ⟨l, truth, hl, heval, htruth.trans hiff.symm⟩
  · intro s hs o ho
    have hbit : o.handle.anchor ≠ .root := by
      rw [Select.anchor_option ho]
      exact Anchor.noConfusion
    obtain ⟨l, truth, hl, heval, htruth⟩ := hliteral o.handle (.option hs ho) hbit
    exact ⟨_, l, truth, hvalue _ hs, hl, heval,
      htruth.trans (Choice.chosen_option_iff_mem (hconsistent _ hs) (reflexive s hs) ho)⟩

end Run

/-- The literals of the handles of the full parcel. -/
theorem Parcel.full_literals :
    session.build.width ≤ Literal.indexBound ∧
    (∀ s, .select s ∈ transcript.created → s.domain.Reflexive) ∧
    session.build.width ≤ Assignment.size full ∧ session.build.isSatisfied full = .ok true ∧
    (∀ v ∈ transcript.created, ∃ value, session.build.valueOf v full = .ok value ∧
      (v.handle.anchor = .root → value.isSome = true) ∧
      (v.handle.anchor ≠ .root → ∃ l truth, v.toLiteral session.layout = .ok l ∧
        l.eval full = .ok truth ∧ (truth = true ↔ value.isSome = true))) ∧
    ∀ s, .select s ∈ transcript.created → ∀ o ∈ s.options,
      ∃ value l truth, session.build.valueOf (.select s) full = .ok value ∧
        o.toLiteral session.layout = .ok l ∧ l.eval full = .ok truth ∧
        (truth = true ↔ ∃ selection, value = some (.select selection) ∧
          o.value ∈ selection.toList) :=
  ⟨by decide, fun s _ => s.domain.reflexive, by decide, rfl,
    run.literals_agree (by decide) (fun s _ => s.domain.reflexive) full (by decide) rfl⟩

end ChoiceTree
