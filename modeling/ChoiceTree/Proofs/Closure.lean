import Mathlib
import ChoiceTree.Proofs.Allocation
import ChoiceTree.Proofs.Run

/-!
# Sessions stay whole

A session goes on as long as identities and literals last, and whatever it gives out
can be built on. Nothing is taken from where it was when a variable is new: its parent
has been given out before, so the bit that the parent anchors at is there.

* `Request.ids`, `Request.bits` — what a request takes;
* `Builder.Handed` — registered identities have been handed out;
* `Run.exists_rebaseSelect`, `Run.exists_serve` — no request faults, and each takes as
  much;
* `Variable.Concerns`, `Run.appended` — what is added to the constraints for a variable
  mentions its own bits and the bit of its parent;
* `Handle.AnchorsIn`, `Run.anchorsIn_take` — no handle points ahead;
* `Run.stays_whole` — all of this.
-/

namespace ChoiceTree

variable {V : Type} [BEq V]

/-! ## What a request takes -/

/-- A name is only made up, at the cost of an identity, in place of the empty one. -/
def nameIds (name : String) : Nat := if name = "" then 1 else 0

namespace Request

/-- The number of identities that serving the request takes. -/
def ids : Request V → Nat
  | .flag name _ _ => nameIds name + 1
  | .select _ name _ _ _ => nameIds name + 1
  | .rebaseFlag _ _ => 1
  | .rebaseSelect _ _ => 1
  | .addConstraint _ => 0
  | .defaultName => 1

/-- The number of bits that serving the request takes. A select whose values form no
domain takes none. -/
def bits : Request V → Nat
  | .flag _ _ _ => 1
  | .select _ _ optional _ values =>
    match Domain.ofList values with
    | .ok domain => domain.size + optional.toNat
    | .error _ => 0
  | .rebaseFlag _ _ => 1
  | .rebaseSelect s _ => s.size
  | .addConstraint _ => 0
  | .defaultName => 0

end Request

namespace Builder

/-! ## Every step of a request succeeds -/

/-- The session with `count` more identities handed out. -/
def skip (b : Builder) (count : Nat) : Builder :=
  ⟨b.root, b.counter + count, b.layout, b.constraints⟩

theorem fresh_of_lt {b : Builder} (h : b.counter + 1 < counterBound) :
    b.fresh = .ok (⟨b.counter⟩, b.skip 1) :=
  fresh_eq_ok.mpr ⟨h, rfl, rfl⟩

/-- Every registered identity has been handed out. -/
def Handed (b : Builder) : Prop := ∀ id r, b.layout.find? id = some r → id.num < b.counter

/-- No identity is registered before it has been handed out. -/
theorem Served.handed {b b' : Builder} {r : Request V} {answer : Answer V}
    (served : b.Served r answer b') (handed : b.Handed) : b'.Handed := by
  intro id reservation hr
  cases served with
  | @created v fresh cs _ _ _ hcounter =>
    show id.num < fresh.num + 1
    rcases Layout.find?_extend_cases hr with hold | ⟨rfl, _⟩
    · have := handed id reservation hold
      omega
    · omega
  | added => exact handed id reservation hr
  | passed _ _ hcounter => exact Nat.lt_of_lt_of_le (handed id reservation hr) hcounter

/-- What comes next has not been registered. -/
theorem Handed.find?_eq_none {b : Builder} (handed : b.Handed) {id : VarId}
    (h : b.counter ≤ id.num) : b.layout.find? id = none := by
  cases hr : b.layout.find? id with
  | none => rfl
  | some r =>
    have := handed id r hr
    omega

/-- A name is found, and an identity after it. -/
theorem exists_named {b : Builder} {name : String}
    (hids : b.counter + (nameIds name + 1) < counterBound) :
    ∃ name' b₁, b.nameOrDefault name = .ok (name', b₁) ∧
      b₁.fresh = .ok (⟨b.counter + nameIds name⟩, b.skip (nameIds name + 1)) := by
  unfold nameOrDefault nameIds at *
  by_cases hname : name = ""
  · rw [if_pos hname] at hids
    simp only [if_pos hname]
    exact ⟨_, b.skip 1, defaultName_eq_ok.mpr ⟨by omega, rfl, rfl⟩, fresh_of_lt hids⟩
  · rw [if_neg hname] at hids
    simp only [if_neg hname]
    exact ⟨name, b, rfl, fresh_of_lt hids⟩

/-- Under a new identity and a registered parent, a variable is laid out as long as
there are literals for its bits. -/
theorem exists_place {α : Type} {b : Builder} (toVariable : α → Variable V) (result : α)
    {id : VarId} {parent : Handle} (hid : (toVariable result).id? = some id)
    (hparent : (toVariable result).parent = .ok parent) (hpacked : b.layout.Packed)
    (hnew : b.layout.find? id = none) (hregistered : parent.anchor.Registered b.layout)
    (narrow : b.layout.size + (toVariable result).size ≤ Literal.indexBound) :
    ∃ b', b.place (toVariable result) result = .ok ⟨.ok result, b'⟩ ∧ b'.counter = b.counter ∧
      b'.layout.size = b.layout.size + (toVariable result).size := by
  have hroom : b.layout.size + (toVariable result).size < Address.bound :=
    Nat.lt_of_le_of_lt narrow (by decide)
  obtain ⟨cs, hcs⟩ := Variable.exists_emitted (hpacked.extend hnew hroom) narrow hparent hid
    (Layout.find?_extend_self _ _ _) rfl (hregistered.mono (Layout.grows_extend hnew _))
  have hadd := (add_eq_ok hid).mpr ⟨hnew, hroom, cs, hcs, rfl⟩
  refine ⟨⟨b.root, b.counter, b.layout.extend id (toVariable result).size, b.constraints ++ cs⟩,
    ?_, rfl, rfl⟩
  rw [place, hadd]
  rfl

end Builder

namespace Run

variable {root : String} {t : Transcript V} {b : Builder}

/-- Registered identities have been handed out. -/
theorem handed (run : Run root t b) : b.Handed := by
  induction run with
  | start =>
    intro id r hr
    cases hr
  | serve _ _ hserve ih => exact (Builder.served_of_serve hserve).handed ih

/-- Under the next identity, or one after it, a variable is laid out if its parent is known. -/
theorem exists_placed (run : Run root t b) {α : Type} (toVariable : α → Variable V) (result : α)
    (skipped : Nat) {parent : Handle} (hknown : Known t.created parent)
    (hid : (toVariable result).id? = some ⟨b.counter + skipped⟩)
    (hparent : (toVariable result).parent = .ok parent)
    (narrow : b.layout.size + (toVariable result).size ≤ Literal.indexBound) :
    ∃ b', (b.skip (skipped + 1)).place (toVariable result) result = .ok ⟨.ok result, b'⟩ ∧
      b'.counter = b.counter + (skipped + 1) ∧
      b'.layout.size = b.layout.size + (toVariable result).size :=
  Builder.exists_place (b := b.skip (skipped + 1)) toVariable result hid hparent run.packed
    (run.handed.find?_eq_none (Nat.le_add_right _ _)) (run.registered hknown) narrow

/-- A flag is copied under the next identity. -/
theorem exists_rebaseFlag (run : Run root t b) (f : Flag V) {parent : Handle}
    (hknown : Known t.created parent) (hids : b.counter + 1 < Builder.counterBound)
    (hbits : b.layout.size + 1 ≤ Literal.indexBound) :
    ∃ b', b.rebaseFlag f parent = .ok ⟨.ok (f.rebase ⟨b.counter⟩ parent), b'⟩ ∧
      b'.counter = b.counter + 1 ∧ b'.layout.size = b.layout.size + 1 := by
  obtain ⟨b', hplace, hcounter, hsize⟩ :=
    run.exists_placed .flag (f.rebase ⟨b.counter⟩ parent) 0 hknown rfl rfl hbits
  exact ⟨b', bind_eq_ok.mpr ⟨_, Builder.fresh_of_lt hids, hplace⟩, hcounter, hsize⟩

/-- So is a select. -/
theorem exists_rebaseSelect (run : Run root t b) (s : Select V) {parent : Handle}
    (hknown : Known t.created parent) (hids : b.counter + 1 < Builder.counterBound)
    (hbits : b.layout.size + s.size ≤ Literal.indexBound) :
    ∃ copy b', s.rebase ⟨b.counter⟩ parent = .ok copy ∧
      b.rebaseSelect s parent = .ok ⟨.ok copy, b'⟩ ∧
      b'.counter = b.counter + 1 ∧ b'.layout.size = b.layout.size + s.size := by
  -- a select can be made under anything that is registered
  have hanchored : parent.anchor.InRange := (run.registered hknown).inRange run.packed
  let copy : Select V :=
    ⟨⟨b.counter⟩, s.name, parent, s.kind, s.optional, s.domain, .inr hanchored⟩
  have hcopy : s.rebase ⟨b.counter⟩ parent = .ok copy :=
    Select.ofDomain_eq_ok.mpr ⟨.inr hanchored, rfl⟩
  obtain ⟨b', hplace, hcounter, hsize⟩ := run.exists_placed .select copy 0 hknown rfl rfl hbits
  exact ⟨copy, b', hcopy, bind_eq_ok.mpr ⟨_, Builder.fresh_of_lt hids,
    bind_eq_ok.mpr ⟨_, hcopy, hplace⟩⟩, hcounter, hsize⟩

/-- **Requests do not fault**, and take as many identities and bits as they need. -/
theorem exists_serve (run : Run root t b) {r : Request V} (hknown : Known t.created r.parent)
    (hids : b.counter + r.ids < Builder.counterBound)
    (hbits : b.layout.size + r.bits ≤ Literal.indexBound) :
    ∃ answer b', b.serve r = .ok (answer, b') ∧ b'.counter = b.counter + r.ids ∧
      b'.layout.size = b.layout.size + r.bits := by
  have hanchored : r.parent.anchor.InRange := (run.registered hknown).inRange run.packed
  cases r with
  | flag name payload parent =>
    obtain ⟨name', b₁, hname, hfresh⟩ := Builder.exists_named hids
    let f : Flag V := ⟨⟨b.counter + nameIds name⟩, name', parent, payload⟩
    obtain ⟨b', hplace, hcounter, hsize⟩ := run.exists_placed .flag f (nameIds name) hknown rfl rfl
      hbits
    refine ⟨.created (.flag f), b', ?_, hcounter, hsize⟩
    exact map_eq_ok.mpr ⟨_, bind_eq_ok.mpr ⟨_, hname, bind_eq_ok.mpr ⟨_, hfresh, hplace⟩⟩, rfl⟩
  | select kind name optional parent values =>
    obtain ⟨name', b₁, hname, hfresh⟩ := Builder.exists_named hids
    cases hdomain : Domain.ofList values with
    | error cause =>
      -- the identity is lost, but there is nothing to lay out
      have hrefused : Select.ofList kind ⟨b.counter + nameIds name⟩ name' optional parent values =
          .ok (.error (.domain name' cause)) := by
        rw [Select.ofList, hdomain]
      simp only [Request.bits, hdomain]
      refine ⟨.refused (.domain name' cause), b.skip (nameIds name + 1), ?_, rfl, rfl⟩
      exact map_eq_ok.mpr ⟨_, bind_eq_ok.mpr ⟨_, hname, bind_eq_ok.mpr ⟨_, hfresh,
        bind_eq_ok.mpr ⟨_, hrefused, rfl⟩⟩⟩, rfl⟩
    | ok domain =>
      simp only [Request.bits, hdomain] at hbits ⊢
      let s : Select V :=
        ⟨⟨b.counter + nameIds name⟩, name', parent, kind, optional, domain, .inr hanchored⟩
      have hmade : Select.ofList kind ⟨b.counter + nameIds name⟩ name' optional parent values =
          .ok (.ok s) :=
        Select.ofList_eq_ok.mpr ⟨domain, hdomain, Select.ofDomain_eq_ok.mpr ⟨.inr hanchored, rfl⟩⟩
      obtain ⟨b', hplace, hcounter, hsize⟩ := run.exists_placed .select s (nameIds name) hknown rfl
        rfl hbits
      refine ⟨.created (.select s), b', ?_, hcounter, hsize⟩
      exact map_eq_ok.mpr ⟨_, bind_eq_ok.mpr ⟨_, hname, bind_eq_ok.mpr ⟨_, hfresh,
        bind_eq_ok.mpr ⟨_, hmade, hplace⟩⟩⟩, rfl⟩
  | rebaseFlag f parent =>
    obtain ⟨b', hcopy, hcounter, hsize⟩ := run.exists_rebaseFlag f hknown hids hbits
    exact ⟨_, b', map_eq_ok.mpr ⟨_, hcopy, rfl⟩, hcounter, hsize⟩
  | rebaseSelect s parent =>
    obtain ⟨_, b', _, hcopy, hcounter, hsize⟩ := run.exists_rebaseSelect s hknown hids hbits
    exact ⟨_, b', map_eq_ok.mpr ⟨_, hcopy, rfl⟩, hcounter, hsize⟩
  | addConstraint c => exact ⟨.added, b.addConstraint c, rfl, rfl, rfl⟩
  | defaultName =>
    have hname := Builder.defaultName_eq_ok.mpr ⟨hids, rfl, rfl⟩
    exact ⟨_, _, map_eq_ok.mpr ⟨_, hname, rfl⟩, rfl, rfl⟩

end Run

/-! ## Where things are -/

/-- The anchor is bit `index`, inside the range of `owner`. -/
def Anchor.At (layout : Layout) (owner : VarId) (index : Nat) (anchor : Anchor) : Prop :=
  ∃ position span, anchor = .bit owner position ∧ layout.rangeOf owner = .ok span ∧
    index = span.start + position ∧ index < span.stop

/-- The bit is one of the variable's own, or the one that its parent anchors at. -/
def Variable.Concerns (layout : Layout) (v : Variable V) (index : Nat) : Prop :=
  (∃ id span, v.id? = some id ∧ layout.rangeOf id = .ok span ∧
    span.start ≤ index ∧ index < span.stop) ∨
  ∃ parent owner, v.parent = .ok parent ∧ parent.anchor.At layout owner index

/-- The handle anchors at the root, or at a bit of one of the variables. -/
def Handle.AnchorsIn (layout : Layout) (vs : List (Variable V)) (handle : Handle) : Prop :=
  handle.anchor = .root ∨
    ∃ w ∈ vs, ∃ id index, w.id? = some id ∧ handle.anchor.At layout id index

/-- The literal of a registered anchor is that of the bit it is at. -/
theorem Handle.at_of_toLiteral {layout : Layout} {handle : Handle}
    (hregistered : handle.anchor.Registered layout) {l : Literal}
    (h : handle.toLiteral layout = .ok l) : ∃ owner, handle.anchor.At layout owner l.index := by
  obtain ⟨owner, position, r, hanchor, hr, _, rfl⟩ := toLiteral_eq_ok.mp h
  rw [hanchor] at hregistered
  obtain ⟨r', hr', hlt⟩ := hregistered
  cases hr.symm.trans hr'
  rw [Literal.index_ofIndex]
  exact ⟨owner, position, r.span, hanchor, Layout.rangeOf_eq_ok.mpr ⟨r, hr, rfl⟩, rfl,
    Nat.add_lt_add_left hlt r.start⟩

/-- **What is emitted for a variable concerns it.** -/
theorem Variable.concerns_of_mem_emitted {layout : Layout} {v : Variable V} {id : VarId}
    {parent : Handle} {r : Reservation} (hparent : v.parent = .ok parent) (hid : v.id? = some id)
    (hr : layout.find? id = some r) (hlength : r.length = v.size)
    (hregistered : parent.anchor.Registered layout) {cs : List Constraint}
    (h : v.emitted layout = .ok cs) :
    ∀ c ∈ cs, ∀ l ∈ c.literals, v.Concerns layout l.index := by
  intro c hc l hl
  rcases index_of_mem_emitted hparent hid hr h c hc l hl with
    ⟨position, hlt, hindex⟩ | ⟨above, habove, hindex⟩
  · have hrange := Layout.rangeOf_eq_ok.mpr ⟨r, hr, rfl⟩
    have hstop : r.span.stop = r.start + v.size := by rw [Reservation.span, hlength]
    exact .inl ⟨id, r.span, hid, hrange, hindex ▸ Nat.le_add_right _ _, by omega⟩
  · obtain ⟨owner, hat⟩ := Handle.at_of_toLiteral hregistered habove
    exact .inr ⟨parent, owner, hparent, hindex ▸ hat⟩

/-- A request that is served when nothing runs out takes what it needs. What it adds to
the constraints is the constraint that was asked for, or concerns the new variable. -/
structure Builder.Settled (b : Builder) (r : Request V) (answer : Answer V) (b' : Builder) :
    Prop where
  served : b.serve r = .ok (answer, b')
  counter_eq : b'.counter = b.counter + r.ids
  size_eq : b'.layout.size = b.layout.size + r.bits
  appended : ∃ cs, b'.constraints = b.constraints ++ cs ∧ ∀ c ∈ cs,
    r.constraint? = some c ∨ r.constraint? = none ∧ ∃ v, answer = .created v ∧
      ∀ l ∈ c.literals, v.Concerns b'.layout l.index ∧ l.index < b'.layout.size

namespace Run

variable {root : String} {t : Transcript V} {b : Builder}

/-- What a request adds to the constraints. -/
theorem appended (run : Run root t b) {r : Request V} {answer : Answer V} {b' : Builder}
    (hknown : Known t.created r.parent) (h : b.serve r = .ok (answer, b')) :
    ∃ cs, b'.constraints = b.constraints ++ cs ∧ ∀ c ∈ cs,
      r.constraint? = some c ∨ r.constraint? = none ∧ ∃ v, answer = .created v ∧
        ∀ l ∈ c.literals, v.Concerns b'.layout l.index ∧ l.index < b'.layout.size := by
  have hpacked := (run.serve_known hknown h).packed
  have hserved := Builder.served_of_serve h
  have hregistered := (run.registered hknown).mono hserved.grows
  cases hserved with
  | @created v id cs hid hparent hnone _ hnew _ hcs =>
    have hr := Layout.find?_extend_self b.layout id v.size
    refine ⟨cs, rfl, fun c hc => .inr ⟨hnone, v, rfl, fun l hl => ⟨?_, ?_⟩⟩⟩
    · exact Variable.concerns_of_mem_emitted hparent hid hr rfl hregistered hcs c hc l hl
    · exact Variable.index_lt_of_mem_emitted hpacked hparent hid hr rfl hregistered hcs c hc l hl
  | @added c hadded =>
    refine ⟨[c], rfl, fun c' hc' => .inl ?_⟩
    rw [List.mem_singleton.mp hc', hadded]
  | passed =>
    exact ⟨[], (List.append_nil _).symm, fun c hc => absurd hc List.not_mem_nil⟩

/-- After its first few variables, a run was a run. -/
theorem exists_take (run : Run root t b) {n : Nat} (hn : n ≤ t.created.length) :
    ∃ t₀ b₀, Run root t₀ b₀ ∧ t₀.created = t.created.take n ∧ b₀.layout.Grows b.layout := by
  induction run with
  | start => exact ⟨[], _, .start, (List.take_nil).symm, .refl _⟩
  | @serve t b b' r answer run hknown hserve ih =>
    by_cases hold : n ≤ t.created.length
    · obtain ⟨t₀, b₀, run₀, hcreated, hgrows⟩ := ih hold
      refine ⟨t₀, b₀, run₀, ?_, hgrows.trans (Builder.served_of_serve hserve).grows⟩
      rw [hcreated, Transcript.created_append, List.take_append_of_le_length hold]
    · -- one request creates one variable at most, so these are all of them
      have hall : (Transcript.created (t ++ [⟨r, answer⟩])).length ≤ n := by
        have hone : (Transcript.created [⟨r, answer⟩]).length ≤ 1 :=
          List.length_filterMap_le _ _
        rw [Transcript.created_append, List.length_append]
        omega
      exact ⟨_, b', run.serve hknown hserve, (List.take_of_length_le hall).symm, .refl _⟩

/-- **No handle points ahead.** A handle of a variable or of one of its options anchors at
a bit of this variable or of one that was created before, or at the root. -/
theorem anchorsIn_take (run : Run root t b) {n : Nat} (hn : n < t.created.length) {h : Handle}
    (hknown : Known [t.created[n]] h) : h.AnchorsIn b.layout (t.created.take (n + 1)) := by
  obtain ⟨t₀, b₀, run₀, hcreated, hgrows⟩ := run.exists_take (Nat.succ_le_of_lt hn)
  have hmem : ∀ v ∈ [t.created[n]], v ∈ t₀.created := by
    intro v hv
    rw [List.mem_singleton.mp hv, hcreated, List.take_succ_eq_append_getElem hn]
    exact List.mem_append_right _ List.mem_cons_self
  have hregistered := run₀.registered (hknown.mono hmem)
  rw [← hcreated]
  cases hanchor : h.anchor with
  | root => exact .inl hanchor
  | bit owner position =>
    rw [hanchor] at hregistered
    obtain ⟨r, hr, hlt⟩ := hregistered
    obtain ⟨w, hw, hid⟩ := run₀.exists_variable hr
    have hrange := Layout.rangeOf_eq_ok.mpr ⟨r, hgrows owner r hr, rfl⟩
    exact .inr ⟨w, hw, owner, r.start + position, hid, position, r.span, hanchor, hrange, rfl,
      Nat.add_lt_add_left hlt r.start⟩

/-- **Sessions stay whole.** As long as identities and literals last, no request faults
that nests its variable under something the session has given out. What is added for
the variable only mentions its own bits and the bit of its parent, all of which there
are by then, and no handle points ahead. -/
theorem stays_whole (run : Run root t b) :
    (∀ r : Request V, Known t.created r.parent → b.counter + r.ids < Builder.counterBound →
      b.layout.size + r.bits ≤ Literal.indexBound → ∃ answer b', b.Settled r answer b') ∧
    ∀ n (hn : n < t.created.length) h, Known [t.created[n]] h →
      h.AnchorsIn b.layout (t.created.take (n + 1)) := by
  constructor
  · intro r hknown hids hbits
    obtain ⟨answer, b', hserve, hcounter, hsize⟩ := run.exists_serve hknown hids hbits
    exact ⟨answer, b', hserve, hcounter, hsize, run.appended hknown hserve⟩
  · exact fun n hn h hknown => run.anchorsIn_take hn hknown

end Run

namespace Parcel

/-- A choice of ribbons from another session, in which it was nested under something
that parcels do not have. -/
def ribbons : Select Nat :=
  ⟨⟨30⟩, "ribbons", .option ⟨.optional ⟨21⟩, 4⟩, .multiple, false, ⟨[6, 7], by decide, by decide⟩,
    .inr (by decide)⟩

/-- The ribbons can be brought over, to go around the first of the extras. -/
theorem brings_ribbons :
    Known transcript.created wrap.parent ∧ session.counter + 1 < Builder.counterBound ∧
    session.layout.size + 2 ≤ Literal.indexBound ∧
    (∃ answer b', session.Settled (.rebaseSelect ribbons wrap.parent) answer b') ∧
    ∀ n (hn : n < transcript.created.length) h, Known [transcript.created[n]] h →
      h.AnchorsIn session.layout (transcript.created.take (n + 1)) := by
  have hknown : Known transcript.created wrap.parent :=
    .option (s := extras) (o := ⟨⟨extras.ref, 0⟩, 3⟩) (.tail _ (.tail _ (.head _))) (by decide)
  have hids : session.counter + 1 < Builder.counterBound := by decide
  have hbits : session.layout.size + 2 ≤ Literal.indexBound := by decide
  have hwhole := run.stays_whole
  exact ⟨hknown, hids, hbits, hwhole.1 (.rebaseSelect ribbons wrap.parent) hknown hids hbits,
    hwhole.2⟩

end Parcel

end ChoiceTree
