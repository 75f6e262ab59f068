import Mathlib
import ChoiceTree.Proofs.Stability

/-!
# What a transcript leaves behind

Refused requests and names made up by default move the counter, so two sessions that do
the same otherwise give out different identities. Nothing else differs. The effects of a
transcript are what it created and added, in order, with every parent told by its place in
the order of creation and without any identity or name. **The effects determine the
model**, up to the identities in it.

* `Handle.place`, `Transcript.effects` — places and effects;
* `Builder.Mirrors` — the simulation relation: equal constraints, equal spans, and
  corresponding variables;
* `Run.mirrors` — sessions whose transcripts have the same effects mirror each other;
* `Run.determined_by_effects` — what follows for the models.
-/

namespace ChoiceTree

variable {V : Type} [BEq V]

/-! ## Places -/

/-- What a handle stands for, told by the order of creation. -/
inductive Place where
  | root
  /-- The variable created after `n` others. -/
  | var (n : Nat)
  /-- An option of this variable. -/
  | option (n index : Nat)
  deriving DecidableEq

/-- The place of a handle among the variables, if it is the handle of one of them or of
an option of theirs. -/
def Handle.place (vs : List (Variable V)) : Handle → Option Place
  | .root => some .root
  | .var ref => (vs.findIdx? (·.handle = .var ref)).map .var
  | .option ref => (vs.findIdx? (·.handle = .var ref.owner)).map (.option · ref.index)

/-- The reference to a variable has its identity, and says whether it is optional. -/
theorem Variable.of_handle_eq_var {v : Variable V} {ref : VarRef} (h : v.handle = .var ref) :
    v.id? = some ref.id ∧ v.optional = ref.isOptional := by
  cases v with
  | root name => cases h
  | flag f =>
    cases h
    exact ⟨rfl, rfl⟩
  | select s =>
    cases h
    exact ⟨congrArg some (VarRef.id_under _ _ _).symm, (VarRef.isOptional_under _ _ _).symm⟩

namespace Handle

/-- A variable that is listed is found. -/
theorem exists_findIdx? {vs : List (Variable V)} {v : Variable V} (hv : v ∈ vs)
    (handle : Handle) (h : v.handle = handle) :
    ∃ n, vs.findIdx? (·.handle = handle) = some n := by
  rw [← Option.isSome_iff_exists, List.findIdx?_isSome, List.any_eq_true]
  exact ⟨v, hv, decide_eq_true h⟩

/-- Every known handle has a place. -/
theorem exists_place {vs : List (Variable V)} {h : Handle} (hknown : Known vs h) :
    ∃ p, h.place vs = some p := by
  cases hknown with
  | root => exact ⟨.root, rfl⟩
  | @handle v hv =>
    cases hhandle : v.handle with
    | root => exact ⟨.root, rfl⟩
    | var ref =>
      obtain ⟨n, hn⟩ := exists_findIdx? hv _ hhandle
      exact ⟨.var n, by rw [place, hn, Option.map_some]⟩
    | option ref => cases v <;> cases hhandle
  | @option s o hs ho =>
    obtain ⟨howner, _, _⟩ := Select.mem_options ho
    obtain ⟨n, hn⟩ := exists_findIdx? hs (.var o.ref.owner) (congrArg Handle.var howner.symm)
    exact ⟨.option n o.ref.index, by rw [SelectOption.handle, place, hn, Option.map_some]⟩

theorem eq_root_of_place {vs : List (Variable V)} {h : Handle} (hp : h.place vs = some .root) :
    h = .root := by
  cases h with
  | root => rfl
  | var ref =>
    obtain ⟨_, _, hplace⟩ := Option.map_eq_some_iff.mp hp
    cases hplace
  | option ref =>
    obtain ⟨_, _, hplace⟩ := Option.map_eq_some_iff.mp hp
    cases hplace

/-- At the place of a variable there is a variable with this handle. -/
theorem getElem?_of_place_var {vs : List (Variable V)} {h : Handle} {n : Nat}
    (hp : h.place vs = some (.var n)) : ∃ v, vs[n]? = some v ∧ v.handle = h := by
  cases h with
  | root => cases hp
  | var ref =>
    obtain ⟨_, hfound, hplace⟩ := Option.map_eq_some_iff.mp hp
    cases hplace
    obtain ⟨hn, hhandle, _⟩ := List.findIdx?_eq_some_iff_getElem.mp hfound
    exact ⟨vs[n], List.getElem?_eq_getElem hn, of_decide_eq_true hhandle⟩
  | option ref =>
    obtain ⟨_, _, hplace⟩ := Option.map_eq_some_iff.mp hp
    cases hplace

/-- At the place of an option there is a variable with the handle of its owner. -/
theorem getElem?_of_place_option {vs : List (Variable V)} {h : Handle} {n index : Nat}
    (hp : h.place vs = some (.option n index)) :
    ∃ v ref, vs[n]? = some v ∧ v.handle = .var ref.owner ∧ h = .option ref ∧
      ref.index = index := by
  cases h with
  | root => cases hp
  | var ref =>
    obtain ⟨_, _, hplace⟩ := Option.map_eq_some_iff.mp hp
    cases hplace
  | option ref =>
    obtain ⟨_, hfound, hplace⟩ := Option.map_eq_some_iff.mp hp
    cases hplace
    obtain ⟨hn, hhandle, _⟩ := List.findIdx?_eq_some_iff_getElem.mp hfound
    exact ⟨vs[n], ref, List.getElem?_eq_getElem hn, of_decide_eq_true hhandle, rfl, rfl⟩

end Handle

/-- Variables in the same place of corresponding lists correspond. -/
theorem Variable.corresponds_of_getElem? {layout layout' : Layout} {vs ws : List (Variable V)}
    (h : List.Forall₂ (Corresponds layout layout') vs ws) {n : Nat} {v w : Variable V}
    (hv : vs[n]? = some v) (hw : ws[n]? = some w) : v.Corresponds layout layout' w := by
  obtain ⟨hn, rfl⟩ := List.getElem?_eq_some_iff.mp hv
  obtain ⟨hn', rfl⟩ := List.getElem?_eq_some_iff.mp hw
  exact h.get hn hn'

/-- **Handles in the same place anchor at the same bit**, provided that the variables
correspond. -/
theorem Handle.matches_of_place {layout layout' : Layout} {vs ws : List (Variable V)}
    (hall : List.Forall₂ (Variable.Corresponds layout layout') vs ws) {h h' : Handle}
    {p : Place} (hp : h.place vs = some p) (hp' : h'.place ws = some p) :
    h.anchor.Matches layout layout' h'.anchor := by
  cases p with
  | root =>
    rw [eq_root_of_place hp, eq_root_of_place hp']
    exact .root
  | var n =>
    obtain ⟨v, hv, rfl⟩ := getElem?_of_place_var hp
    obtain ⟨w, hw, rfl⟩ := getElem?_of_place_var hp'
    exact (Variable.corresponds_of_getElem? hall hv hw).matches_handle
  | option n index =>
    obtain ⟨v, ref, hv, hhandle, rfl, hindex⟩ := getElem?_of_place_option hp
    obtain ⟨w, ref', hw, hhandle', rfl, hindex'⟩ := getElem?_of_place_option hp'
    obtain ⟨hid, hoptional⟩ := Variable.of_handle_eq_var hhandle
    obtain ⟨hid', hoptional'⟩ := Variable.of_handle_eq_var hhandle'
    have hcorresponds := Variable.corresponds_of_getElem? hall hv hw
    have hposition : ref.position = ref'.position := by
      unfold OptionRef.position
      rw [hindex, hindex', ← hoptional, ← hoptional',
        Variable.optional_eq_of_shape_eq hcorresponds.shape_eq]
    show (Anchor.bit ref.owner.id ref.position).Matches layout layout' (.bit ref'.owner.id _)
    rw [← hposition]
    exact hcorresponds.matches_bit hid hid' _

/-! ## Effects -/

/-- What an exchange leaves behind. -/
inductive Effect (V : Type) [BEq V] where
  | created (shape : Shape V) (parent : Option Place)
  | added (c : Constraint)

/-- The effect of an exchange, if it has one, where `vs` are the variables so far. -/
def Exchange.effect (vs : List (Variable V)) (x : Exchange V) : Option (Effect V) :=
  match x.answer, x.request.constraint? with
  | .created v, _ => some (.created v.shape (x.request.parent.place vs))
  | .added, some c => some (.added c)
  | _, _ => none

namespace Transcript

/-- The effects of the exchanges, where `vs` are the variables before the first. -/
def effectsFrom (vs : List (Variable V)) : Transcript V → List (Effect V)
  | [] => []
  | x :: rest => (x.effect vs).toList ++ effectsFrom (vs ++ x.answer.created?.toList) rest

/-- What was created and added, in order. -/
def effects (t : Transcript V) : List (Effect V) := effectsFrom [] t

theorem created_cons (x : Exchange V) (t : Transcript V) :
    created (x :: t) = x.answer.created?.toList ++ created t := by
  unfold created
  cases h : x.answer.created? <;> simp [h]

theorem created_concat (t : Transcript V) (x : Exchange V) :
    created (t ++ [x]) = created t ++ x.answer.created?.toList := by
  rw [created_append, created_cons]
  show _ ++ (_ ++ []) = _
  rw [List.append_nil]

theorem effectsFrom_concat (vs : List (Variable V)) (t : Transcript V) (x : Exchange V) :
    effectsFrom vs (t ++ [x]) = effectsFrom vs t ++ (x.effect (vs ++ created t)).toList := by
  induction t generalizing vs with
  | nil =>
    show (x.effect vs).toList ++ [] = [] ++ (x.effect (vs ++ [])).toList
    simp
  | cons y t ih =>
    rw [List.cons_append, effectsFrom, effectsFrom, ih, created_cons, List.append_assoc,
      List.append_assoc]

/-- The last exchange adds its effect. -/
theorem effects_concat (t : Transcript V) (x : Exchange V) :
    effects (t ++ [x]) = effects t ++ (x.effect (created t)).toList :=
  effectsFrom_concat [] t x

end Transcript

/-! ## Mirrored sessions -/

/-- The sessions differ in identities and names at most. -/
structure Builder.Mirrors (b : Builder) (vs : List (Variable V)) (b' : Builder)
    (ws : List (Variable V)) : Prop where
  spans_eq : b.layout.ranges.map Prod.snd = b'.layout.ranges.map Prod.snd
  size_eq : b.layout.size = b'.layout.size
  constraints_eq : b.constraints = b'.constraints
  corresponding : List.Forall₂ (Variable.Corresponds b.layout b'.layout) vs ws

namespace Builder.Mirrors

variable {b b' c c' : Builder} {vs ws : List (Variable V)} {r r' : Request V}

theorem symm (h : b.Mirrors vs b' ws) : b'.Mirrors ws b vs where
  spans_eq := h.spans_eq.symm
  size_eq := h.size_eq.symm
  constraints_eq := h.constraints_eq.symm
  corresponding := h.corresponding.flip.imp fun _ _ => Variable.Corresponds.symm

/-- An exchange without an effect changes neither side. -/
theorem idle {answer : Answer V} (h : b.Mirrors vs b' ws) (hserved : b.Served r answer c)
    (hnone : Exchange.effect vs ⟨r, answer⟩ = none) :
    c.Mirrors (vs ++ answer.created?.toList) b' ws := by
  cases hserved with
  | created => cases hnone
  | added hadded =>
    unfold Exchange.effect at hnone
    simp [hadded] at hnone
  | passed hcreated =>
    rw [hcreated, Option.toList_none, List.append_nil]
    exact ⟨h.spans_eq, h.size_eq, h.constraints_eq, h.corresponding⟩

/-- Variables of one shape under parents in one place are laid out and emitted alike. -/
theorem created {v w : Variable V} (h : b.Mirrors vs b' ws)
    (hserved : b.Served r (.created v) c) (hserved' : b'.Served r' (.created w) c')
    (hshape : v.shape = w.shape) (hknown : Known vs r.parent)
    (hplace : r.parent.place vs = r'.parent.place ws) :
    c.Mirrors (vs ++ [v]) c' (ws ++ [w]) := by
  obtain ⟨hspans, hsize, hconstraints, hvariables⟩ := h
  have hgrows := hserved.grows
  have hgrows' := hserved'.grows
  obtain ⟨p, hp⟩ := Handle.exists_place hknown
  have hparents := Handle.matches_of_place hvariables hp (hplace ▸ hp)
  cases hserved with
  | passed hnone => cases hnone
  | @created v id cs hid hparent _ _ hnew _ hcs =>
    cases hserved' with
    | passed hnone => cases hnone
    | @created w id' cs' hid' hparent' _ _ hnew' _ hcs' =>
      have hsizes := Variable.size_eq_of_shape_eq hshape
      have hnext : v.Corresponds (b.layout.extend id v.size) (b'.layout.extend id' w.size) w :=
        ⟨hshape, ⟨id, id', _, _, hid, hid', Layout.find?_extend_self _ _ _,
          Layout.find?_extend_self _ _ _, hsize⟩, _, _, hparent, hparent',
          hparents.mono hgrows hgrows'⟩
      have hemitted : cs = cs' := Except.ok.inj (hcs.symm.trans (hnext.emitted_eq.trans hcs'))
      constructor
      · show (b.layout.extend id v.size).ranges.map Prod.snd =
          (b'.layout.extend id' w.size).ranges.map Prod.snd
        rw [Layout.ranges_extend, Layout.ranges_extend, List.map_append, List.map_append, hspans,
          hsize, hsizes]
        rfl
      · show b.layout.size + v.size = b'.layout.size + w.size
        rw [hsize, hsizes]
      · show b.constraints ++ cs = b'.constraints ++ cs'
        rw [hconstraints, hemitted]
      · exact List.rel_append (hvariables.imp fun _ _ hold => hold.mono hgrows hgrows')
          (.cons hnext .nil)

/-- The same constraint is added to both. -/
theorem added {k : Constraint} (h : b.Mirrors vs b' ws) (hserved : b.Served r .added c)
    (hserved' : b'.Served r' .added c') (hr : r.constraint? = some k)
    (hr' : r'.constraint? = some k) : c.Mirrors vs c' ws := by
  cases hserved with
  | passed _ hnone => rw [hr] at hnone; cases hnone
  | added hk =>
    cases hserved' with
    | passed _ hnone => rw [hr'] at hnone; cases hnone
    | added hk' =>
      cases hr.symm.trans hk
      cases hr'.symm.trans hk'
      refine ⟨h.spans_eq, h.size_eq, ?_, h.corresponding⟩
      show b.constraints ++ [k] = b'.constraints ++ [k]
      rw [h.constraints_eq]

/-- Exchanges with the same effect keep sessions mirrored. -/
theorem effect {answer answer' : Answer V} {e : Effect V} (h : b.Mirrors vs b' ws)
    (hserved : b.Served r answer c) (hserved' : b'.Served r' answer' c')
    (hknown : ∀ v, answer = .created v → Known vs r.parent)
    (he : Exchange.effect vs ⟨r, answer⟩ = some e)
    (he' : Exchange.effect ws ⟨r', answer'⟩ = some e) :
    c.Mirrors (vs ++ answer.created?.toList) c' (ws ++ answer'.created?.toList) := by
  unfold Exchange.effect at he he'
  cases answer with
  | created v =>
    cases he
    cases answer' with
    | created w =>
      obtain ⟨hshape, hplace⟩ := Effect.created.inj (Option.some.inj he')
      exact h.created hserved hserved' hshape.symm (hknown v rfl) hplace.symm
    | added => split at he' <;> simp_all
    | refused => simp at he'
    | named => simp at he'
  | added =>
    cases hr : r.constraint? with
    | none => simp [hr] at he
    | some k =>
      simp only [hr, Option.some.injEq] at he
      subst he
      cases answer' with
      | created w => simp at he'
      | added =>
        cases hr' : r'.constraint? with
        | none => simp [hr'] at he'
        | some k' =>
          simp only [hr', Option.some.injEq, Effect.added.injEq] at he'
          subst he'
          simpa [Answer.created?] using h.added hserved hserved' hr hr'
      | refused => simp at he'
      | named => simp at he'
  | refused => simp at he
  | named => simp at he

end Builder.Mirrors

namespace Run

variable {root root' : String} {t u : Transcript V} {b b' : Builder}

/-- **Sessions whose transcripts have the same effects mirror each other.** -/
theorem mirrors (run : Run root t b) (other : Run root' u b') (same : t.effects = u.effects) :
    b.Mirrors t.created b' u.created := by
  -- on both runs; exchanges without an effect are passed over on either side
  induction run generalizing u b' with
  | start =>
    induction other with
    | start => exact ⟨rfl, rfl, rfl, .nil⟩
    | @serve u b' c' r' answer' other _ hserve' ih =>
      rw [Transcript.effects_concat] at same
      obtain ⟨hbefore, hnone⟩ := List.append_eq_nil_iff.mp same.symm
      rw [Transcript.created_concat]
      exact ((ih hbefore.symm).symm.idle (Builder.served_of_serve hserve')
        (Option.toList_eq_nil_iff.mp hnone)).symm
  | @serve t b c r answer run hknown hserve ih =>
    have hserved := Builder.served_of_serve hserve
    rw [Transcript.effects_concat] at same
    cases he : Exchange.effect t.created ⟨r, answer⟩ with
    | none =>
      rw [he, Option.toList_none, List.append_nil] at same
      rw [Transcript.created_concat]
      exact (ih other same).idle hserved he
    | some e =>
      rw [he, Option.toList_some] at same
      induction other with
      | start => simp [Transcript.effects, Transcript.effectsFrom] at same
      | @serve u b' c' r' answer' other _ hserve' ih' =>
        have hserved' := Builder.served_of_serve hserve'
        rw [Transcript.effects_concat] at same
        rw [Transcript.created_concat u]
        cases he' : Exchange.effect u.created ⟨r', answer'⟩ with
        | none =>
          rw [he', Option.toList_none, List.append_nil] at same
          exact ((ih' same).symm.idle hserved' he').symm
        | some e' =>
          rw [he', Option.toList_some] at same
          obtain ⟨hbefore, hlast⟩ := List.append_inj' same rfl
          cases hlast
          rw [Transcript.created_concat t]
          exact (ih other hbefore).effect hserved hserved' hknown he he'

/-- Identities are handed out in ascending order. -/
theorem pairwise_ids (run : Run root t b) :
    (b.layout.ranges.map Prod.fst).Pairwise fun id later => id.num < later.num := by
  induction run with
  | start => exact List.Pairwise.nil
  | @serve t b b' r answer run _ hserve ih =>
    cases Builder.served_of_serve hserve with
    | @created v id cs _ _ _ hcounter =>
      show ((b.layout.extend id v.size).ranges.map Prod.fst).Pairwise _
      rw [Layout.ranges_extend, List.map_append]
      refine List.pairwise_append.mpr ⟨ih, List.pairwise_singleton _ _, ?_⟩
      intro old hold new hnew
      obtain ⟨⟨_, span⟩, hlisted, rfl⟩ := List.mem_map.mp hold
      obtain ⟨r, hr, _⟩ := run.packed.inStep.mem_ranges.mp hlisted
      rw [List.mem_singleton.mp hnew]
      exact Nat.lt_of_lt_of_le (run.handed _ r hr) hcounter
    | added => exact ih
    | passed => exact ih

end Run

/-- Corresponding variables decode to the same under models of one width, or both fault. -/
theorem Model.toOption_valueOf_eq {α : Type} [Assignment α] {m m' : Model}
    (hwidth : m.width = m'.width) {v w : Variable V}
    (h : v.Corresponds m.layout m'.layout w) (a : α) :
    (m.valueOf v a).toOption = (m'.valueOf w a).toOption := by
  obtain ⟨id, id', r, r', hid, hid', hr, hr', hstart⟩ := h.placed
  have hoffset : m.layout.offsetOf id = m'.layout.offsetOf id' := by
    rw [Layout.offsetOf_eq_ok.mpr ⟨r, hr, rfl⟩, Layout.offsetOf_eq_ok.mpr ⟨r', hr', rfl⟩, hstart]
  unfold valueOf
  rw [hwidth]
  split
  · rfl
  · simp only [hid, hid', hoffset, h.parentLiteral_eq]
    exact toOption_bind_congr rfl fun offset => toOption_bind_congr rfl fun guard =>
      Variable.toOption_decode_eq h.shape_eq a offset guard

/-- **The effects of a transcript determine the model**, up to identities, which ascend in
either. Two sessions that create and add the same have the same constraints and the same
ranges, and every variable decodes to what its counterpart decodes to, or both fault: what
else they were asked for, what was refused, under whatever handle, and what names were given
leaves no trace. A refusal leaves the session's layout and its constraints as they were. -/
theorem Run.determined_by_effects {root root' : String} {t u : Transcript V} {b b' : Builder}
    (run : Run root t b) (other : Run root' u b') (same : t.effects = u.effects) :
    b.build.width = b'.build.width ∧ b.build.constraints = b'.build.constraints ∧
    b.build.layout.ranges.map Prod.snd = b'.build.layout.ranges.map Prod.snd ∧
    (b.build.layout.ranges.map Prod.fst).Pairwise (fun id later => id.num < later.num) ∧
    (b'.build.layout.ranges.map Prod.fst).Pairwise (fun id later => id.num < later.num) ∧
    List.Forall₂ (fun v w => ∀ (α : Type) [Assignment α] (a : α),
      (b.build.valueOf v a).toOption = (b'.build.valueOf w a).toOption) t.created u.created ∧
    ∀ (r : Request V) cause c, b.serve r = .ok (.refused cause, c) →
      c.layout = b.layout ∧ c.constraints = b.constraints := by
  have hmirrors := run.mirrors other same
  have hwidth : b.build.width = b'.build.width := hmirrors.size_eq
  refine ⟨hwidth, hmirrors.constraints_eq, hmirrors.spans_eq, run.pairwise_ids,
    other.pairwise_ids, ?_, ?_⟩
  · refine hmirrors.corresponding.imp fun v w hcorresponds => ?_
    intro α _ a
    exact Model.toOption_valueOf_eq hwidth hcorresponds a
  · intro r cause c hserve
    cases Builder.served_of_serve hserve with
    | passed => exact ⟨rfl, rfl⟩

/-! ## A parcel made up in another way

The session asks for a size without values first, then for a name, gives no names where it
can and copies the gift and its wrapping from the other session. In between it asks for a
select under an option of some other session, but repeats a value. -/

namespace Bundle

def size : Select Nat :=
  ⟨⟨3⟩, "$x_" ++ toString 2, .root, .nominal, false, Parcel.size.domain, Parcel.anchored_root⟩

def gift : Flag Nat := ⟨⟨4⟩, "gift", .option ⟨size.ref, 1⟩, 7⟩

def extras : Select Nat :=
  ⟨⟨7⟩, "$x_" ++ toString 6, gift.handle, .multiple, false, Parcel.extras.domain,
    .inr (by decide)⟩

def wrap : Select Nat :=
  ⟨⟨8⟩, "wrap", .option ⟨extras.ref, 0⟩, .nominal, true, Parcel.wrap.domain, .inl rfl⟩

/-- An option that the session has not given out. -/
def elsewhere : Handle := .option ⟨.optional ⟨21⟩, 4⟩

def transcript : Transcript Nat :=
  [⟨.select .nominal "size" false .root [], .refused (.domain "size" .empty)⟩,
   ⟨.defaultName, .named ("$x_" ++ toString 1)⟩,
   ⟨.select .nominal "" false .root [1, 2], .created (.select size)⟩,
   ⟨.rebaseFlag Parcel.gift gift.parent, .created (.flag gift)⟩,
   ⟨.select .multiple "ribbons" false elsewhere [6, 6],
     .refused (.domain "ribbons" (.duplicate 6))⟩,
   ⟨.select .multiple "" false gift.handle [3, 4], .created (.select extras)⟩,
   ⟨.rebaseSelect Parcel.wrap wrap.parent, .created (.select wrap)⟩]

def session : Builder where
  root := "bundle"
  counter := 9
  layout := Layout.empty |>.extend ⟨3⟩ 2 |>.extend ⟨4⟩ 1 |>.extend ⟨7⟩ 2 |>.extend ⟨8⟩ 2
  constraints := Parcel.session.constraints

theorem run : Run "bundle" transcript session := by
  have hstart : Run (V := Nat) "bundle" [] (.new "bundle") := .start
  have hempty := hstart.serve_refused (r := .select .nominal "size" false .root []) rfl
  have hnamed := hempty.serve_known (r := .defaultName) .root rfl
  have hsize := hnamed.serve_known (r := .select .nominal "" false .root [1, 2]) .root rfl
  have hgift := hsize.serve_known (r := .rebaseFlag Parcel.gift gift.parent)
    (.option (s := size) (o := ⟨⟨size.ref, 1⟩, 2⟩) (.head _) (by decide)) rfl
  -- the foreign parent is never looked at
  have hrepeated := hgift.serve_refused
    (r := .select .multiple "ribbons" false elsewhere [6, 6]) rfl
  have hextras := hrepeated.serve_known (r := .select .multiple "" false gift.handle [3, 4])
    (.handle (v := .flag gift) (.tail _ (.head _))) rfl
  exact hextras.serve_known (r := .rebaseSelect Parcel.wrap wrap.parent)
    (.option (s := extras) (o := ⟨⟨extras.ref, 0⟩, 3⟩) (.tail _ (.tail _ (.head _)))
      (by decide)) rfl

/-- The bundle is a parcel. -/
theorem determined_parcel :
    Run "parcel" Parcel.transcript Parcel.session ∧ Run "bundle" transcript session ∧
    Parcel.transcript.effects = transcript.effects ∧
    Parcel.session.build.width = session.build.width ∧
    Parcel.session.build.constraints = session.build.constraints ∧
    Parcel.session.build.layout.ranges.map Prod.snd =
      session.build.layout.ranges.map Prod.snd ∧
    (Parcel.session.build.layout.ranges.map Prod.fst).Pairwise
      (fun id later => id.num < later.num) ∧
    (session.build.layout.ranges.map Prod.fst).Pairwise (fun id later => id.num < later.num) ∧
    List.Forall₂ (fun v w => ∀ (α : Type) [Assignment α] (a : α),
        (Parcel.session.build.valueOf v a).toOption = (session.build.valueOf w a).toOption)
      Parcel.transcript.created transcript.created ∧
    ∀ (r : Request Nat) cause c, Parcel.session.serve r = .ok (.refused cause, c) →
      c.layout = Parcel.session.layout ∧ c.constraints = Parcel.session.constraints :=
  ⟨Parcel.run, run, rfl, Run.determined_by_effects Parcel.run run rfl⟩

end Bundle

end ChoiceTree
