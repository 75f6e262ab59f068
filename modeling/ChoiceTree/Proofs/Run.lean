import Mathlib
import ChoiceTree.Assignment.Bools
import ChoiceTree.Builder
import ChoiceTree.Proofs.Emission

/-!
# Runs of a build session

A session serves one request after the other. A transcript lists the requests
with their answers, and a `Run` is a transcript that a session started from
nothing can have, in which every new variable is nested under the root or under
something the session has created before. What holds of every run is proved by
induction over it; `Builder.served_of_serve` says once what serving a request
can come to, and every invariant is derived from that:

* `Run.packed` — the layout is packed;
* `Run.exists_reservation`, `Run.exists_variable` — the registered variables are
  those that were created;
* `Run.grown`, `Grown.handle_induction` — the variables form a tree, in which parents
  come first;
* `Run.emitted`, `Run.mem_constraints` — the constraints are the added ones and
  those emitted for the variables;
* `Run.registered` — every handle of the run anchors inside the layout.
-/

namespace ChoiceTree

/-! ## Requests and their answers -/

/-- What a session can be asked for. Payloads and values are of one type; a session
over values of several sorts is one over their sum. -/
inductive Request (V : Type) [BEq V] where
  | flag (name : String) (payload : V) (parent : Handle)
  | select (kind : SelectKind) (name : String) (optional : Bool) (parent : Handle)
      (values : List V)
  /-- A copy of a flag, from this session or elsewhere. -/
  | rebaseFlag (f : Flag V) (parent : Handle)
  /-- A copy of a select, from this session or elsewhere. -/
  | rebaseSelect (s : Select V) (parent : Handle)
  | addConstraint (c : Constraint)
  | defaultName

/-- What a session answers. -/
inductive Answer (V : Type) [BEq V] where
  | created (v : Variable V)
  | refused (cause : EncodingError V)
  /-- The constraint is added. -/
  | added
  | named (name : String)

variable {V : Type} [BEq V]

/-- What the requested variable is to be nested under; the root if none is. -/
def Request.parent : Request V → Handle
  | .flag _ _ parent => parent
  | .select _ _ _ parent _ => parent
  | .rebaseFlag _ parent => parent
  | .rebaseSelect _ parent => parent
  | .addConstraint _ => .root
  | .defaultName => .root

/-- The constraint that is to be added, if that is the request. -/
def Request.constraint? : Request V → Option Constraint
  | .addConstraint c => some c
  | _ => none

def Answer.created? : Answer V → Option (Variable V)
  | .created v => some v
  | _ => none

/-- What is answered to a request for a variable, and the session afterwards. -/
def Built.answer {α : Type} (toVariable : α → Variable V) : Built V α → Answer V × Builder
  | ⟨.ok result, b⟩ => (.created (toVariable result), b)
  | ⟨.error cause, b⟩ => (.refused cause, b)

/-- Serves a request: the answer, and the session afterwards. -/
def Builder.serve (b : Builder) : Request V → Except Fault (Answer V × Builder)
  | .flag name payload parent => Built.answer .flag <$> b.flag name payload parent
  | .select kind name optional parent values =>
      Built.answer .select <$> b.select kind name optional parent values
  | .rebaseFlag f parent => Built.answer .flag <$> b.rebaseFlag f parent
  | .rebaseSelect s parent => Built.answer .select <$> b.rebaseSelect s parent
  | .addConstraint c => .ok (.added, b.addConstraint c)
  | .defaultName => (fun (name, b) => (.named name, b)) <$> b.defaultName

/-! ## Transcripts and runs -/

/-- A request with its answer. -/
structure Exchange (V : Type) [BEq V] where
  request : Request V
  answer : Answer V

/-- The exchanges of a session, in order. -/
abbrev Transcript (V : Type) [BEq V] := List (Exchange V)

namespace Transcript

/-- The variables that were created, in order. -/
def created (t : Transcript V) : List (Variable V) := t.filterMap (·.answer.created?)

/-- The constraints that were added, in order. -/
def added (t : Transcript V) : List Constraint := t.filterMap (·.request.constraint?)

end Transcript

/-- The root, the handle of one of the variables, or the handle of one of their
options. -/
inductive Known (vs : List (Variable V)) : Handle → Prop
  | root : Known vs .root
  | handle {v : Variable V} : v ∈ vs → Known vs v.handle
  | option {s : Select V} {o : SelectOption V} : .select s ∈ vs → o ∈ s.options →
      Known vs o.handle

/-- A tree: each of the variables is nested under the root, under one before it or
under an option of one before it. Their identities need not differ. -/
inductive Grown : List (Variable V) → Prop
  | nil : Grown []
  | create {vs : List (Variable V)} {v : Variable V} {parent : Handle} : Grown vs →
      v.parent = .ok parent → Known vs parent → Grown (vs ++ [v])

/-- `Run root t b`: a session started with a root of this name can have the
transcript `t` and be `b` afterwards. No variable is created under a handle that
the session has not given out; what is refused may have been asked for under any. -/
inductive Run (root : String) : Transcript V → Builder → Prop
  | start : Run root [] (Builder.new root)
  | serve {t : Transcript V} {b b' : Builder} {r : Request V} {answer : Answer V} :
      Run root t b → (∀ v, answer = .created v → Known t.created r.parent) →
      b.serve r = .ok (answer, b') → Run root (t ++ [⟨r, answer⟩]) b'

/-- A request under a handle that the session has given out can come next. -/
theorem Run.serve_known {root : String} {t : Transcript V} {b b' : Builder} {r : Request V}
    {answer : Answer V} (run : Run root t b) (hknown : Known t.created r.parent)
    (hserve : b.serve r = .ok (answer, b')) : Run root (t ++ [⟨r, answer⟩]) b' :=
  run.serve (fun _ _ => hknown) hserve

/-- So can one under any other handle, if it is refused. -/
theorem Run.serve_refused {root : String} {t : Transcript V} {b b' : Builder} {r : Request V}
    {cause : EncodingError V} (run : Run root t b) (hserve : b.serve r = .ok (.refused cause, b')) :
    Run root (t ++ [⟨r, .refused cause⟩]) b' :=
  run.serve nofun hserve

/-! ## A parcel

A small session: a parcel has a size; a large one may have a gift, which comes
with some extras, of which the first may have a wrapping. -/

namespace Parcel

/-- A mandatory select may be nested under the root. -/
theorem anchored_root : false = true ∨ Handle.root.anchor.InRange := .inr trivial

def size : Select Nat :=
  ⟨⟨0⟩, "size", .root, .nominal, false, ⟨[1, 2], by decide, by decide⟩, anchored_root⟩

def gift : Flag Nat := ⟨⟨1⟩, "gift", .option ⟨size.ref, 1⟩, 7⟩

def extras : Select Nat :=
  ⟨⟨2⟩, "extras", gift.handle, .multiple, false, ⟨[3, 4], by decide, by decide⟩,
    .inr (by decide)⟩

def wrap : Select Nat :=
  ⟨⟨3⟩, "wrap", .option ⟨extras.ref, 0⟩, .nominal, true, ⟨[5], by decide, by decide⟩, .inl rfl⟩

def transcript : Transcript Nat :=
  [⟨.select .nominal "size" false .root [1, 2], .created (.select size)⟩,
   ⟨.flag "gift" 7 gift.parent, .created (.flag gift)⟩,
   ⟨.select .multiple "extras" false gift.handle [3, 4], .created (.select extras)⟩,
   ⟨.select .nominal "wrap" true wrap.parent [5], .created (.select wrap)⟩]

/-- The literal of a bit of a parcel. -/
def literal (index : Fin 7) (polarity : Bool) : Literal :=
  .ofIndex index polarity (Nat.lt_trans index.isLt (by decide))

def session : Builder where
  root := "parcel"
  counter := 4
  layout := Layout.empty |>.extend ⟨0⟩ 2 |>.extend ⟨1⟩ 1 |>.extend ⟨2⟩ 2 |>.extend ⟨3⟩ 2
  constraints :=
    [.disjunction [literal 0 true, literal 1 true],
     .cardinality [literal 0 true, literal 1 true] .le 1,
     .disjunction [literal 2 false, literal 1 true],
     .reified (literal 2 true) (.disjunction [literal 3 true, literal 4 true]),
     .reified (literal 5 true) (.disjunction [literal 6 true]),
     .cardinality [literal 6 true] .le 1,
     .disjunction [literal 5 false, literal 3 true]]

theorem run : Run "parcel" transcript session := by
  have hstart : Run (V := Nat) "parcel" [] (.new "parcel") := .start
  have hsize := hstart.serve_known (r := .select .nominal "size" false .root [1, 2]) .root rfl
  have hgift := hsize.serve_known (r := .flag "gift" 7 gift.parent)
    (.option (s := size) (o := ⟨⟨size.ref, 1⟩, 2⟩) (.head _) (by decide)) rfl
  have hextras := hgift.serve_known (r := .select .multiple "extras" false gift.handle [3, 4])
    (.handle (v := .flag gift) (.tail _ (.head _))) rfl
  exact hextras.serve_known (r := .select .nominal "wrap" true wrap.parent [5])
    (.option (s := extras) (o := ⟨⟨extras.ref, 0⟩, 3⟩) (.tail _ (.tail _ (.head _)))
      (by decide)) rfl

/-- Someone wishes for the second of the extras. -/
def wish : Constraint := .disjunction [literal 4 true]

theorem run_wish : Run "parcel" (transcript ++ [⟨.addConstraint wish, .added⟩])
    (session.addConstraint wish) := run.serve_known .root rfl

/-- The parcel is wrapped exactly if the first of the extras comes with at most one of four
literals being true, of which two are the same and two contradict each other. -/
def clash : Constraint :=
  .reified (literal 5 true) <| .reified (literal 3 true) <|
    .cardinality [literal 4 true, literal 2 false, literal 4 true, literal 2 true] .le 1

/-- A large parcel with all there is. -/
def full : Bools := ⟨[false, true, true, true, true, true, true]⟩

end Parcel

/-! ## What serving a request comes to -/

/-- What serving a request can come to. A new variable is laid out at the end,
under an identity that has not been handed out, and its constraints follow the
others. A constraint is added as it is. Anything else moves the counter only. -/
inductive Builder.Served (b : Builder) (r : Request V) : Answer V → Builder → Prop
  | created {v : Variable V} {id : VarId} {cs : List Constraint} : v.id? = some id →
      v.parent = .ok r.parent → r.constraint? = none → b.counter ≤ id.num →
      b.layout.find? id = none → b.layout.size + v.size < Address.bound →
      v.emitted (b.layout.extend id v.size) = .ok cs →
      Served b r (.created v)
        ⟨b.root, id.num + 1, b.layout.extend id v.size, b.constraints ++ cs⟩
  | added {c : Constraint} : r.constraint? = some c →
      Served b r .added ⟨b.root, b.counter, b.layout, b.constraints ++ [c]⟩
  | passed {answer : Answer V} {counter : Nat} : answer.created? = none →
      r.constraint? = none → b.counter ≤ counter →
      Served b r answer ⟨b.root, counter, b.layout, b.constraints⟩

namespace Builder

theorem fresh_eq_ok {b b' : Builder} {id : VarId} :
    b.fresh = .ok (id, b') ↔
      b.counter + 1 < counterBound ∧ id = ⟨b.counter⟩ ∧
        b' = ⟨b.root, b.counter + 1, b.layout, b.constraints⟩ := by
  rw [fresh]
  split
  · next h => simp [h, eq_comm]
  · next h => simp [h]

theorem defaultName_eq_ok {b b' : Builder} {name : String} :
    b.defaultName = .ok (name, b') ↔
      b.counter + 1 < counterBound ∧ name = "$x_" ++ toString b.counter ∧
        b' = ⟨b.root, b.counter + 1, b.layout, b.constraints⟩ := by
  rw [defaultName, bind_eq_ok]
  constructor
  · rintro ⟨⟨id, b₁⟩, hfresh, h⟩
    obtain ⟨hlt, rfl, rfl⟩ := fresh_eq_ok.mp hfresh
    cases h
    exact ⟨hlt, rfl, rfl⟩
  · intro h
    obtain ⟨hlt, rfl, rfl⟩ := h
    exact ⟨_, fresh_eq_ok.mpr ⟨hlt, rfl, rfl⟩, rfl⟩

/-- Finding a name moves the counter at most. -/
theorem eq_of_nameOrDefault {b b' : Builder} {name name' : String}
    (h : b.nameOrDefault name = .ok (name', b')) :
    ∃ counter, b.counter ≤ counter ∧ b' = ⟨b.root, counter, b.layout, b.constraints⟩ := by
  rw [nameOrDefault] at h
  split at h
  · obtain ⟨_, _, hb⟩ := defaultName_eq_ok.mp h
    exact ⟨_, Nat.le_succ _, hb⟩
  · cases h
    exact ⟨_, Nat.le_refl _, rfl⟩

end Builder

theorem Select.ofDomain_eq_ok {kind : SelectKind} {id : VarId} {name : String}
    {optional : Bool} {parent : Handle} {domain : Domain V} {s : Select V} :
    Select.ofDomain kind id name optional parent domain = .ok s ↔
      ∃ h, s = ⟨id, name, parent, kind, optional, domain, h⟩ := by
  rw [Select.ofDomain]
  split
  · next h => simp [h, eq_comm]
  · next h => simp [h]

/-- A select is made of values exactly if they form a domain. -/
theorem Select.ofList_eq_ok {kind : SelectKind} {id : VarId} {name : String}
    {optional : Bool} {parent : Handle} {values : List V} {s : Select V} :
    Select.ofList kind id name optional parent values = .ok (.ok s) ↔
      ∃ domain, Domain.ofList values = .ok domain ∧
        Select.ofDomain kind id name optional parent domain = .ok s := by
  rw [Select.ofList]
  cases Domain.ofList values with
  | error cause => simp
  | ok domain => simp [map_eq_ok]

namespace Builder

/-- Adding a variable lays it out at the end and emits its constraints. -/
theorem add_eq_ok {b b' : Builder} {v : Variable V} {id : VarId} (hid : v.id? = some id) :
    b.add v = .ok (b', .ok ()) ↔
      b.layout.find? id = none ∧ b.layout.size + v.size < Address.bound ∧
        ∃ cs, v.emitted (b.layout.extend id v.size) = .ok cs ∧
          b' = ⟨b.root, b.counter, b.layout.extend id v.size, b.constraints ++ cs⟩ := by
  rw [add, Layout.register_eq_reserve hid, bind_eq_ok]
  constructor
  · intro h
    obtain ⟨⟨layout, answer⟩, hreserved, h⟩ := h
    match answer with
    | .error cause => cases h
    | .ok span =>
      obtain ⟨hnew, hroom, rfl, _⟩ := Layout.reserve_eq_ok.mp hreserved
      obtain ⟨implicit, himplicit, h⟩ := bind_eq_ok.mp h
      obtain ⟨scope, hscope, h⟩ := bind_eq_ok.mp h
      cases h
      exact ⟨hnew, hroom, implicit ++ scope,
        Variable.emitted_eq_ok.mpr ⟨implicit, scope, himplicit, hscope, rfl⟩,
        by rw [List.append_assoc]⟩
  · intro h
    obtain ⟨hnew, hroom, cs, hcs, rfl⟩ := h
    obtain ⟨implicit, scope, himplicit, hscope, rfl⟩ := Variable.emitted_eq_ok.mp hcs
    refine ⟨_, Layout.reserve_eq_ok.mpr ⟨hnew, hroom, rfl, rfl⟩, ?_⟩
    refine bind_eq_ok.mpr ⟨implicit, himplicit, bind_eq_ok.mpr ⟨scope, hscope, ?_⟩⟩
    rw [← List.append_assoc]
    rfl

/-- A variable is refused only if its identity is registered, and then nothing is added. -/
theorem add_eq_error {b b' : Builder} {v : Variable V} {id : VarId} (hid : v.id? = some id)
    {cause : LayoutError} :
    b.add v = .ok (b', .error cause) ↔
      b.layout.contains id = true ∧ b' = b ∧ cause = .alreadyRegistered id := by
  rw [add, Layout.register_eq_reserve hid, bind_eq_ok]
  constructor
  · intro h
    obtain ⟨⟨layout, answer⟩, hreserved, h⟩ := h
    match answer with
    | .error cause =>
      obtain ⟨hcontains, rfl, rfl⟩ := Layout.reserve_eq_error.mp hreserved
      cases h
      exact ⟨hcontains, rfl, rfl⟩
    | .ok span =>
      obtain ⟨_, _, h⟩ := bind_eq_ok.mp h
      obtain ⟨_, _, h⟩ := bind_eq_ok.mp h
      cases h
  · intro h
    obtain ⟨hcontains, rfl, rfl⟩ := h
    exact ⟨_, Layout.reserve_eq_error.mpr ⟨hcontains, rfl, rfl⟩, rfl⟩

/-- A variable with a new identity is created or refused. -/
theorem served_of_place {α : Type} {b : Builder} {toVariable : α → Variable V} {result : α}
    {built : Built V α} {r : Request V} {id : VarId} {counter : Nat}
    (hid : (toVariable result).id? = some id)
    (hparent : (toVariable result).parent = .ok r.parent) (hr : r.constraint? = none)
    (hcounter : b.counter ≤ id.num) (hnext : counter = id.num + 1)
    (h : place ⟨b.root, counter, b.layout, b.constraints⟩ (toVariable result) result =
      .ok built) :
    b.Served r (built.answer toVariable).1 (built.answer toVariable).2 := by
  rw [place, bind_eq_ok] at h
  obtain ⟨⟨b', answer⟩, hadded, h⟩ := h
  match answer with
  | .error cause =>
    -- the identity stays taken
    obtain ⟨_, rfl, _⟩ := (add_eq_error hid).mp hadded
    cases h
    exact .passed rfl hr (by omega)
  | .ok () =>
    cases h
    obtain ⟨hnew, hroom, cs, hcs, rfl⟩ := (add_eq_ok hid).mp hadded
    subst hnext
    exact .created hid hparent hr hcounter hnew hroom hcs

/-- **Everything a request can come to.** -/
theorem served_of_serve {b b' : Builder} {r : Request V} {answer : Answer V}
    (h : b.serve r = .ok (answer, b')) : b.Served r answer b' := by
  -- every variable is placed under the identity that was next
  cases r with
  | flag name payload parent =>
    obtain ⟨built, hbuilt, hanswer⟩ := map_eq_ok.mp h
    obtain ⟨⟨name', b₁⟩, hname, hbuilt⟩ := bind_eq_ok.mp hbuilt
    obtain ⟨counter, hcounter, rfl⟩ := eq_of_nameOrDefault hname
    obtain ⟨⟨id, b₂⟩, hfresh, hbuilt⟩ := bind_eq_ok.mp hbuilt
    obtain ⟨_, rfl, rfl⟩ := fresh_eq_ok.mp hfresh
    have hserved : b.Served (.flag name payload parent) (built.answer .flag).1
        (built.answer .flag).2 := served_of_place rfl rfl rfl hcounter rfl hbuilt
    rwa [hanswer] at hserved
  | select kind name optional parent values =>
    obtain ⟨built, hbuilt, hanswer⟩ := map_eq_ok.mp h
    obtain ⟨⟨name', b₁⟩, hname, hbuilt⟩ := bind_eq_ok.mp hbuilt
    obtain ⟨counter, hcounter, rfl⟩ := eq_of_nameOrDefault hname
    obtain ⟨⟨id, b₂⟩, hfresh, hbuilt⟩ := bind_eq_ok.mp hbuilt
    obtain ⟨_, rfl, rfl⟩ := fresh_eq_ok.mp hfresh
    obtain ⟨attempt, hattempt, hbuilt⟩ := bind_eq_ok.mp hbuilt
    match attempt with
    | .error refusal =>
      -- the values form no domain, and the identity is lost
      cases hbuilt
      cases hanswer
      exact .passed rfl rfl (Nat.le_succ_of_le hcounter)
    | .ok s =>
      obtain ⟨domain, _, hs⟩ := Select.ofList_eq_ok.mp hattempt
      obtain ⟨_, rfl⟩ := Select.ofDomain_eq_ok.mp hs
      have hserved : b.Served (.select kind name optional parent values)
          (built.answer .select).1 (built.answer .select).2 :=
        served_of_place rfl rfl rfl hcounter rfl hbuilt
      rwa [hanswer] at hserved
  | rebaseFlag f parent =>
    obtain ⟨built, hbuilt, hanswer⟩ := map_eq_ok.mp h
    obtain ⟨⟨id, b₁⟩, hfresh, hbuilt⟩ := bind_eq_ok.mp hbuilt
    obtain ⟨_, rfl, rfl⟩ := fresh_eq_ok.mp hfresh
    have hserved : b.Served (.rebaseFlag f parent) (built.answer .flag).1
        (built.answer .flag).2 := served_of_place rfl rfl rfl (Nat.le_refl _) rfl hbuilt
    rwa [hanswer] at hserved
  | rebaseSelect s parent =>
    obtain ⟨built, hbuilt, hanswer⟩ := map_eq_ok.mp h
    obtain ⟨⟨id, b₁⟩, hfresh, hbuilt⟩ := bind_eq_ok.mp hbuilt
    obtain ⟨_, rfl, rfl⟩ := fresh_eq_ok.mp hfresh
    obtain ⟨rebased, hrebased, hbuilt⟩ := bind_eq_ok.mp hbuilt
    obtain ⟨_, rfl⟩ := Select.ofDomain_eq_ok.mp hrebased
    have hserved : b.Served (.rebaseSelect s parent) (built.answer .select).1
        (built.answer .select).2 := served_of_place rfl rfl rfl (Nat.le_refl _) rfl hbuilt
    rwa [hanswer] at hserved
  | addConstraint c =>
    cases h
    exact .added rfl
  | defaultName =>
    obtain ⟨⟨name, b₁⟩, hname, hanswer⟩ := map_eq_ok.mp h
    obtain ⟨_, _, rfl⟩ := defaultName_eq_ok.mp hname
    cases hanswer
    exact .passed rfl rfl (Nat.le_succ _)

end Builder

/-! ## What holds of every run -/

theorem Known.mono {vs vs' : List (Variable V)} (hsub : ∀ v ∈ vs, v ∈ vs') {h : Handle}
    (hknown : Known vs h) : Known vs' h := by
  cases hknown with
  | root => exact .root
  | handle hv => exact .handle (hsub _ hv)
  | option hs ho => exact .option (hsub _ hs) ho

namespace Grown

variable {vs : List (Variable V)}

/-- What a variable of a tree is nested under is known. -/
theorem parent_known (grown : Grown vs) {v : Variable V} (hv : v ∈ vs) :
    ∃ parent, v.parent = .ok parent ∧ Known vs parent := by
  induction grown with
  | nil => exact absurd hv List.not_mem_nil
  | @create vs new parent _ hparent hknown ih =>
    have hsub : ∀ v ∈ vs, v ∈ vs ++ [new] := fun v hv => List.mem_append_left _ hv
    rcases List.mem_append.mp hv with hold | hnew
    · obtain ⟨parent', hparent', hknown'⟩ := ih hold
      exact ⟨parent', hparent', hknown'.mono hsub⟩
    · cases List.mem_singleton.mp hnew
      exact ⟨parent, hparent, hknown.mono hsub⟩

/-- **Induction over the handles of a tree**: what holds of the root, of a variable
if it holds of its parent, and of an option if it holds of its select holds of
every handle, because parents come first. -/
theorem handle_induction {P : Handle → Prop} (grown : Grown vs) (hroot : P .root)
    (hvar : ∀ v ∈ vs, ∀ parent, v.parent = .ok parent → Known vs parent → P parent → P v.handle)
    (hoption : ∀ s, .select s ∈ vs → ∀ o ∈ s.options, P s.handle → P o.handle)
    {h : Handle} (hknown : Known vs h) : P h := by
  -- the step is asked for at every variable of the tree, so it also serves a smaller tree
  induction grown generalizing h with
  | nil =>
    cases hknown with
    | root => exact hroot
    | handle hv => cases hv
    | option hs _ => cases hs
  | @create vs new parent _ hparent hparentKnown ih =>
    have hsub : ∀ v ∈ vs, v ∈ vs ++ [new] := fun v hv => List.mem_append_left _ hv
    have hold : ∀ {h : Handle}, Known vs h → P h :=
      ih (fun v hv parent hparent hk => hvar v (hsub v hv) parent hparent (hk.mono hsub))
        fun s hs => hoption s (hsub _ hs)
    -- the new variable is nested under something old
    have hvariable : ∀ v ∈ vs ++ [new], P v.handle := by
      intro v hv
      rcases List.mem_append.mp hv with hv' | hnew
      · exact hold (.handle hv')
      · cases List.mem_singleton.mp hnew
        exact hvar _ hv parent hparent (hparentKnown.mono hsub) (hold hparentKnown)
    cases hknown with
    | root => exact hroot
    | handle hv => exact hvariable _ hv
    | option hs ho => exact hoption _ hs _ ho (hvariable _ hs)

end Grown

namespace Transcript

theorem created_append (t u : Transcript V) : created (t ++ u) = created t ++ created u :=
  List.filterMap_append

theorem mem_created_concat {t : Transcript V} {r : Request V} {answer : Answer V}
    {v : Variable V} :
    v ∈ created (t ++ [⟨r, answer⟩]) ↔ v ∈ created t ∨ answer.created? = some v := by
  rw [created, List.filterMap_append, List.mem_append, ← created, List.mem_filterMap]
  simp

theorem mem_added_concat {t : Transcript V} {r : Request V} {answer : Answer V}
    {c : Constraint} :
    c ∈ added (t ++ [⟨r, answer⟩]) ↔ c ∈ added t ∨ r.constraint? = some c := by
  rw [added, List.filterMap_append, List.mem_append, ← added, List.mem_filterMap]
  simp

end Transcript

/-- Serving a request keeps every reservation. -/
theorem Builder.Served.grows {b b' : Builder} {r : Request V} {answer : Answer V}
    (h : b.Served r answer b') : b.layout.Grows b'.layout := by
  cases h with
  | created _ _ _ _ hnew => exact Layout.grows_extend hnew _
  | added => exact Layout.Grows.refl _
  | passed => exact Layout.Grows.refl _

namespace Run

variable {root : String} {t : Transcript V} {b : Builder}

/-- The layout of a session is packed. -/
theorem packed (run : Run root t b) : b.layout.Packed := by
  induction run with
  | start => exact .empty
  | serve _ _ hserve ih =>
    cases Builder.served_of_serve hserve with
    | created _ _ _ _ hnew hroom => exact ih.extend hnew hroom
    | added => exact ih
    | passed => exact ih

/-- A variable of the run has an identity and, under it, as many bits as it needs. -/
theorem exists_reservation (run : Run root t b) {v : Variable V} (hv : v ∈ t.created) :
    ∃ id r, v.id? = some id ∧ b.layout.find? id = some r ∧ r.length = v.size := by
  induction run with
  | start => exact absurd hv List.not_mem_nil
  | @serve t b b' r answer _ _ hserve ih =>
    have hserved := Builder.served_of_serve hserve
    -- old reservations are kept, and the new variable has just been given its own
    rcases Transcript.mem_created_concat.mp hv with hold | hnew
    · obtain ⟨id, r, hid, hr, hlength⟩ := ih hold
      exact ⟨id, r, hid, hserved.grows id r hr, hlength⟩
    · cases hserved with
      | created hid =>
        cases hnew
        exact ⟨_, _, hid, Layout.find?_extend_self _ _ _, rfl⟩
      | added => cases hnew
      | passed hnone => rw [hnone] at hnew; cases hnew

/-- The bits reserved for a variable of the run are as many as it needs. -/
theorem length_eq_size (run : Run root t b) {v : Variable V} (hv : v ∈ t.created) {id : VarId}
    {r : Reservation} (hid : v.id? = some id) (hr : b.layout.find? id = some r) :
    r.length = v.size := by
  obtain ⟨id', r', hid', hr', hlength⟩ := run.exists_reservation hv
  cases hid.symm.trans hid'
  cases hr.symm.trans hr'
  exact hlength

/-- Whatever is registered is a variable of the run. -/
theorem exists_variable (run : Run root t b) {id : VarId} {r : Reservation}
    (hr : b.layout.find? id = some r) : ∃ v ∈ t.created, v.id? = some id := by
  induction run with
  | start => cases hr
  | serve _ _ hserve ih =>
    cases Builder.served_of_serve hserve with
    | created hid =>
      rcases Layout.find?_extend_cases hr with hold | ⟨rfl, _⟩
      · obtain ⟨v, hv, hvid⟩ := ih hold
        exact ⟨v, Transcript.mem_created_concat.mpr (.inl hv), hvid⟩
      · exact ⟨_, Transcript.mem_created_concat.mpr (.inr rfl), hid⟩
    | added =>
      obtain ⟨v, hv, hvid⟩ := ih hr
      exact ⟨v, Transcript.mem_created_concat.mpr (.inl hv), hvid⟩
    | passed =>
      obtain ⟨v, hv, hvid⟩ := ih hr
      exact ⟨v, Transcript.mem_created_concat.mpr (.inl hv), hvid⟩

/-- No two variables of the run have the same identity. -/
theorem eq_of_id (run : Run root t b) {v w : Variable V} (hv : v ∈ t.created)
    (hw : w ∈ t.created) (h : v.id? = w.id?) : v = w := by
  induction run with
  | start => exact absurd hv List.not_mem_nil
  | @serve t b b' r answer run _ hserve ih =>
    -- an old variable is registered, a new one was not
    have hfresh : ∀ {x y : Variable V}, x ∈ t.created → answer.created? = some y →
        x.id? ≠ y.id? := by
      intro x y hx hy hid
      obtain ⟨id, r, hxid, hr, _⟩ := run.exists_reservation hx
      cases Builder.served_of_serve hserve with
      | created hyid _ _ _ hfind =>
        cases hy
        rw [hxid, hyid] at hid
        cases hid
        rw [hr] at hfind
        cases hfind
      | added => cases hy
      | passed hnone => rw [hnone] at hy; cases hy
    rcases Transcript.mem_created_concat.mp hv with hold | hnew
    · rcases Transcript.mem_created_concat.mp hw with hold' | hnew'
      · exact ih hold hold'
      · exact absurd h (hfresh hold hnew')
    · rcases Transcript.mem_created_concat.mp hw with hold' | hnew'
      · exact absurd h.symm (hfresh hold' hnew)
      · exact Option.some.inj (hnew.symm.trans hnew')

/-- No variable is created twice. -/
theorem nodup_created (run : Run root t b) : t.created.Nodup := by
  induction run with
  | start => exact List.nodup_nil
  | @serve t b b' r answer run _ hserve ih =>
    rw [Transcript.created_append]
    cases Builder.served_of_serve hserve with
    | @created v id cs hid _ _ _ hfind =>
      refine List.nodup_append.mpr ⟨ih, List.nodup_singleton v, ?_⟩
      intro w hw v' hv' heq
      obtain ⟨id', r', hid', hr', _⟩ := run.exists_reservation hw
      rw [heq, List.mem_singleton.mp hv', hid] at hid'
      cases hid'
      rw [hr'] at hfind
      cases hfind
    | added => simpa [Transcript.created, Answer.created?] using ih
    | passed hnone => simpa [Transcript.created, hnone] using ih

/-- The variables of a run form a tree. -/
theorem grown (run : Run root t b) : Grown t.created := by
  induction run with
  | start => exact .nil
  | @serve t b b' r answer _ hknown hserve ih =>
    rw [Transcript.created_append]
    cases Builder.served_of_serve hserve with
    | created _ hparent => exact ih.create hparent (hknown _ rfl)
    | added => simpa [Transcript.created, Answer.created?] using ih
    | passed hnone => simpa [Transcript.created, hnone] using ih

theorem parent_known (run : Run root t b) {v : Variable V} (hv : v ∈ t.created) :
    ∃ parent, v.parent = .ok parent ∧ Known t.created parent := run.grown.parent_known hv

theorem known_of_parent (run : Run root t b) {v : Variable V} (hv : v ∈ t.created)
    {parent : Handle} (hparent : v.parent = .ok parent) : Known t.created parent := by
  obtain ⟨parent', hparent', hknown⟩ := run.parent_known hv
  cases hparent.symm.trans hparent'
  exact hknown

/-- The constraints of a variable can be emitted, and are what they were when it
was created. -/
theorem emitted (run : Run root t b) {v : Variable V} (hv : v ∈ t.created) :
    ∃ cs, v.emitted b.layout = .ok cs := by
  induction run with
  | start => exact absurd hv List.not_mem_nil
  | @serve t b b' r answer run _ hserve ih =>
    have hserved := Builder.served_of_serve hserve
    rcases Transcript.mem_created_concat.mp hv with hold | hnew
    · obtain ⟨cs, hcs⟩ := ih hold
      obtain ⟨parent, hparent, _⟩ := run.parent_known hold
      exact ⟨cs, Variable.emitted_mono hserved.grows hparent hcs⟩
    · cases hserved with
      | created _ _ _ _ _ _ hcs =>
        cases hnew
        exact ⟨_, hcs⟩
      | added => cases hnew
      | passed hnone => rw [hnone] at hnew; cases hnew

/-- The constraints are the added ones and those emitted for the variables. -/
theorem mem_constraints (run : Run root t b) {c : Constraint} :
    c ∈ b.constraints ↔
      c ∈ t.added ∨ ∃ v ∈ t.created, ∃ cs, v.emitted b.layout = .ok cs ∧ c ∈ cs := by
  induction run with
  | start =>
    constructor
    · intro hc
      cases hc
    · rintro (hc | ⟨v, hv, _⟩)
      · cases hc
      · cases hv
  | @serve t b b' r answer run _ hserve ih =>
    have hserved := Builder.served_of_serve hserve
    -- what is emitted for an old variable is what was emitted before
    have hold : (∃ v ∈ t.created, ∃ cs, v.emitted b'.layout = .ok cs ∧ c ∈ cs) ↔
        ∃ v ∈ t.created, ∃ cs, v.emitted b.layout = .ok cs ∧ c ∈ cs := by
      have hsame : ∀ v ∈ t.created, v.emitted b'.layout = v.emitted b.layout := by
        intro v hv
        obtain ⟨cs, hcs⟩ := run.emitted hv
        obtain ⟨parent, hparent, _⟩ := run.parent_known hv
        rw [hcs, Variable.emitted_mono hserved.grows hparent hcs]
      exact exists_congr fun v => and_congr_right fun hv => by rw [hsame v hv]
    simp only [Transcript.mem_created_concat, Transcript.mem_added_concat, or_and_right,
      exists_or]
    rw [hold]
    -- either the constraints of a new variable follow, or an added one, or nothing
    cases hserved with
    | @created v id cs _ _ hadded _ _ _ hcs =>
      rw [List.mem_append, ih, hadded]
      constructor
      · rintro ((hc | hc) | hc)
        · exact .inl (.inl hc)
        · exact .inr (.inl hc)
        · exact .inr (.inr ⟨v, rfl, cs, hcs, hc⟩)
      · rintro ((hc | hc) | (hc | ⟨w, hw, cs', hcs', hc⟩))
        · exact .inl (.inl hc)
        · cases hc
        · exact .inl (.inr hc)
        · cases hw
          cases hcs.symm.trans hcs'
          exact .inr hc
    | @added c' hadded =>
      rw [List.mem_append, ih, hadded, List.mem_singleton, Option.some.injEq]
      constructor
      · rintro ((hc | hc) | hc)
        · exact .inl (.inl hc)
        · exact .inr (.inl hc)
        · exact .inl (.inr hc.symm)
      · rintro ((hc | hc) | (hc | ⟨w, hw, _⟩))
        · exact .inl (.inl hc)
        · exact .inr hc.symm
        · exact .inl (.inr hc)
        · cases hw
    | passed hnone hadded =>
      rw [ih, hadded, hnone]
      simp

/-- Induction over the handles of a run is induction over its tree. -/
theorem handle_induction {P : Handle → Prop} (run : Run root t b) (hroot : P .root)
    (hvar : ∀ v ∈ t.created, ∀ parent, v.parent = .ok parent → Known t.created parent →
      P parent → P v.handle)
    (hoption : ∀ s, .select s ∈ t.created → ∀ o ∈ s.options, P s.handle → P o.handle)
    {h : Handle} (hknown : Known t.created h) : P h :=
  run.grown.handle_induction hroot hvar hoption hknown

/-- Every handle of the run anchors at a bit of the layout, or at the root. -/
theorem registered (run : Run root t b) {h : Handle} (hknown : Known t.created h) :
    h.anchor.Registered b.layout := by
  refine run.handle_induction (P := fun h => h.anchor.Registered b.layout) trivial ?_ ?_ hknown
  · intro v hv parent hparent _ hregistered
    obtain ⟨id, r, hid, hr, hlength⟩ := run.exists_reservation hv
    exact Variable.registered_handle hparent hid hr hlength hregistered
  · intro s hs o ho _
    obtain ⟨id, r, hid, hr, hlength⟩ := run.exists_reservation hs
    cases hid
    exact Select.registered_option hr hlength ho

end Run

end ChoiceTree
