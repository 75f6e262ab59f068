import Mathlib
import ChoiceTree.Proofs.Closure
import ChoiceTree.Proofs.Lookup

/-!
# Copies are like new

A session makes a copy of a variable without looking at its values or its name again. It
comes to the same as making the variable anew from its name, its values and the rest: a
select only ever has values that form a domain.

* `Select.ofList_values`, `Builder.rebaseSelect_eq_select`, `Builder.rebaseFlag_eq_flag` —
  the two ways to a variable agree in every session;
* `Select.rebase_rebase` — a copy of a copy is a copy of the original;
* `Select.get_value` — a value that equals itself is found in its own place;
* `Run.copies_like_new` — all of it, with the copies that a session makes.
-/

namespace ChoiceTree

variable {V : Type} [BEq V]

namespace Select

@[simp] theorem map_value_options (s : Select V) : s.options.map (·.value) = s.domain.values := by
  refine List.ext_getElem? fun i => ?_
  rw [List.getElem?_map, getElem?_options, Option.map_map]
  exact Option.map_id'

/-- The values of a select form its domain, so they are never refused. -/
theorem ofList_values (s : Select V) (kind : SelectKind) (id : VarId) (name : String)
    (optional : Bool) (parent : Handle) :
    ofList kind id name optional parent (s.options.map (·.value)) =
      .ok <$> ofDomain kind id name optional parent s.domain := by
  rw [ofList, map_value_options, Domain.ofList_eq_ok.mpr rfl]

/-- What a copy is like. -/
theorem rebase_eq_ok {s copy : Select V} {id : VarId} {parent : Handle} :
    s.rebase id parent = .ok copy ↔
      ∃ h, copy = ⟨id, s.name, parent, s.kind, s.optional, s.domain, h⟩ := ofDomain_eq_ok

/-- A copy of a copy is a copy of the original. -/
theorem rebase_rebase {s copy : Select V} {id : VarId} {parent : Handle}
    (h : s.rebase id parent = .ok copy) (id' : VarId) (parent' : Handle) :
    copy.rebase id' parent' = s.rebase id' parent' := by
  obtain ⟨_, rfl⟩ := rebase_eq_ok.mp h
  rfl

end Select

namespace Builder

/-- **To copy a select is to make it anew**, whatever the session and the parent, and with
the same fault if there is one. -/
theorem rebaseSelect_eq_select (b : Builder) (s : Select V) (parent : Handle)
    (hname : s.name ≠ "") :
    b.rebaseSelect s parent =
      b.select s.kind s.name s.optional parent (s.options.map (·.value)) := by
  have hnamed : b.nameOrDefault s.name = .ok (s.name, b) := by rw [nameOrDefault, if_neg hname]
  rw [rebaseSelect, select, hnamed, ok_bind]
  refine congrArg (b.fresh >>= ·) (funext fun next => ?_)
  obtain ⟨id, b'⟩ := next
  simp only [Select.rebase, Select.ofList_values]
  cases Select.ofDomain s.kind id s.name s.optional parent s.domain with
  | error fault => rfl
  | ok copy => rfl

/-- To copy a flag is to make it anew. -/
theorem rebaseFlag_eq_flag (b : Builder) (f : Flag V) (parent : Handle) (hname : f.name ≠ "") :
    b.rebaseFlag f parent = b.flag f.name f.payload parent := by
  have hnamed : b.nameOrDefault f.name = .ok (f.name, b) := by rw [nameOrDefault, if_neg hname]
  rw [rebaseFlag, flag, hnamed, ok_bind]
  rfl

end Builder

/-- A value of the domain that equals itself is found in its own place: no value before it
equals it. -/
theorem Select.get_value [ValueText V] {s : Select V} {i : Nat} {v : V}
    (hv : s.domain.values[i]? = some v) (hself : (v == v) = true) :
    s.get v = .ok ⟨⟨s.ref, i⟩, v⟩ := by
  have hfound : s.options.find? (·.value == v) = some ⟨⟨s.ref, i⟩, v⟩ := by
    obtain ⟨hlt, rfl⟩ := List.getElem?_eq_some_iff.mp hv
    have hi : i < s.options.length := by rwa [length_options]
    refine List.find?_eq_some_iff_getElem.mpr ⟨hself, i, hi, getElem_options s hi, ?_⟩
    intro j hj
    have hdistinct := List.pairwise_iff_getElem.mp s.domain.distinct j i (by omega) hlt hj
    rw [getElem_options]
    exact congrArg not hdistinct
  rw [get, hfound]

namespace Run

variable {root : String} {t : Transcript V} {b : Builder}

/-- **Copies are like new.** In every state of a session, under every handle it has given out:

* A copy of a select or of a flag with a name is the variable that the session would have made
  of its kind, name, optionality and values, or of its name and payload, and leaves the session
  in the same state. As long as identities and literals last, there is a copy.
* Copying twice is copying the original under the last identity and parent.
* The option of a value that equals itself, looked up in any copy, is the option in the same
  place. -/
theorem copies_like_new [ValueText V] (run : Run root t b) {parent : Handle}
    (hknown : Known t.created parent) :
    (∀ s : Select V, s.name ≠ "" →
      b.rebaseSelect s parent =
        b.select s.kind s.name s.optional parent (s.options.map (·.value)) ∧
      (b.counter + 1 < Builder.counterBound → b.layout.size + s.size ≤ Literal.indexBound →
        ∃ copy b', s.rebase ⟨b.counter⟩ parent = .ok copy ∧
          b.rebaseSelect s parent = .ok ⟨.ok copy, b'⟩)) ∧
    (∀ f : Flag V, f.name ≠ "" →
      b.rebaseFlag f parent = b.flag f.name f.payload parent ∧
      (b.counter + 1 < Builder.counterBound → b.layout.size + 1 ≤ Literal.indexBound →
        ∃ b', b.rebaseFlag f parent = .ok ⟨.ok (f.rebase ⟨b.counter⟩ parent), b'⟩)) ∧
    (∀ (s copy : Select V) id above, s.rebase id above = .ok copy →
      (∀ id' above', copy.rebase id' above' = s.rebase id' above') ∧
      ∀ i (o : SelectOption V), s.options[i]? = some o → (o.value == o.value) = true →
        ∃ o', o.rebase copy = .ok o' ∧ copy.options[i]? = some o' ∧ o'.index = i ∧
          o'.value = o.value ∧ o'.owner = copy.handle) ∧
    ∀ (f : Flag V) id above id' above',
      (f.rebase id above).rebase id' above' = f.rebase id' above' := by
  refine ⟨?selects, ?flags, ?again, fun f id above id' above' => rfl⟩
  case selects =>
    intro s hname
    refine ⟨b.rebaseSelect_eq_select s parent hname, fun hids hbits => ?_⟩
    obtain ⟨copy, b', hcopy, hbuilt, _⟩ := run.exists_rebaseSelect s hknown hids hbits
    exact ⟨copy, b', hcopy, hbuilt⟩
  case flags =>
    intro f hname
    refine ⟨b.rebaseFlag_eq_flag f parent hname, fun hids hbits => ?_⟩
    obtain ⟨b', hbuilt, _⟩ := run.exists_rebaseFlag f hknown hids hbits
    exact ⟨b', hbuilt⟩
  case again =>
    intro s copy id above hcopy
    refine ⟨Select.rebase_rebase hcopy, fun i o ho hself => ?_⟩
    obtain ⟨_, rfl⟩ := Select.rebase_eq_ok.mp hcopy
    rw [Select.getElem?_options] at ho
    obtain ⟨v, hv, rfl⟩ := Option.map_eq_some_iff.mp ho
    exact ⟨_, Select.get_value hv hself, by rw [Select.getElem?_options, hv, Option.map_some],
      rfl, rfl, rfl⟩

end Run

namespace Parcel

/-- What is in a parcel is told by its number. -/
instance : ValueText Nat := ⟨Nat.repr⟩

/-- The ribbons that are brought over are like new ones, and the second of them is the second
of the copy; another gift is like a new one, too. -/
theorem ribbons_like_new :
    Known transcript.created wrap.parent ∧ ribbons.name ≠ "" ∧ gift.name ≠ "" ∧
    session.rebaseSelect ribbons wrap.parent =
      session.select .multiple "ribbons" false wrap.parent [6, 7] ∧
    session.rebaseFlag gift wrap.parent = session.flag "gift" 7 wrap.parent ∧
    ∃ copy b', session.rebaseSelect ribbons wrap.parent = .ok ⟨.ok copy, b'⟩ ∧
      copy.rebase ⟨9⟩ .root = ribbons.rebase ⟨9⟩ .root ∧
      ∃ o, SelectOption.rebase ⟨⟨ribbons.ref, 1⟩, 7⟩ copy = .ok o ∧ o.index = 1 := by
  have hknown : Known transcript.created wrap.parent :=
    .option (s := extras) (o := ⟨⟨extras.ref, 0⟩, 3⟩) (.tail _ (.tail _ (.head _))) (by decide)
  have hribbons : ribbons.name ≠ "" := by decide
  have hgift : gift.name ≠ "" := by decide
  obtain ⟨hselects, hflags, hcopies, _⟩ := run.copies_like_new hknown
  obtain ⟨hselect, hexists⟩ := hselects ribbons hribbons
  obtain ⟨copy, b', hcopy, hbuilt⟩ := hexists (by decide) (by decide)
  obtain ⟨hagain, hoptions⟩ := hcopies ribbons copy _ _ hcopy
  obtain ⟨o, ho, _, hindex, _⟩ := hoptions 1 ⟨⟨ribbons.ref, 1⟩, 7⟩ rfl rfl
  exact ⟨hknown, hribbons, hgift, hselect, (hflags gift hgift).1, copy, b', hbuilt,
    hagain ⟨9⟩ .root, o, ho, hindex⟩

end Parcel

end ChoiceTree
