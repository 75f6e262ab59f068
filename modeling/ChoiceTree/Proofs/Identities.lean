import Mathlib
import ChoiceTree.Proofs.Closure
import ChoiceTree.Proofs.Lookup

/-!
# Identities and made-up names are new

Identities and the names that a session makes up come from one counter. A request takes
none, one or two from it, depending on what it asks for and how it is named, and they stay
taken if it is refused. What a session hands out never comes back: every registered identity
is below the counter, so none is registered twice, whatever the variables are nested under.

* `Builder.draw`, `Builder.handOutAll` — the identities that requests take;
* `Exchange.Shows` — what shows of them in an answer;
* `Builder.servedFresh_of_serve` — what one request takes, shows and may be refused for;
* `Builder.exists_handOutAll` — the same of any number of requests, by induction on them;
* `Exchange.created_sublist`, `Exchange.madeUp_sublist` — identities of variables and made-up
  names go back to different ones that were handed out;
* `Builder.identities_fresh` — all of it for a session.
-/

namespace ChoiceTree

/-- The name that is made up with the identity. -/
def VarId.madeUp (id : VarId) : String := "$x_" ++ toString id.num

theorem VarId.madeUp_injective : Function.Injective VarId.madeUp := by
  intro id id' h
  have hlists := congrArg String.toList h
  unfold madeUp at hlists
  rw [String.toList_append, String.toList_append] at hlists
  have hnum := Nat.repr_inj.mp (String.toList_inj.mp (List.append_cancel_left hlists))
  cases id
  cases id'
  exact congrArg VarId.mk hnum

variable {V : Type} [BEq V]

/-! ## What shows of an identity -/

/-- The session has to make up a name. -/
def Request.unnamed : Request V → Bool
  | .flag name _ _ => name = ""
  | .select _ name _ _ _ => name = ""
  | .rebaseFlag _ _ => false
  | .rebaseSelect _ _ => false
  | .addConstraint _ => false
  | .defaultName => true

/-- What a request may be refused for: the values of a select, of which there are none or
one equals an earlier one. -/
inductive Request.RefusedFor : Request V → EncodingError V → Prop
  | empty {kind : SelectKind} {name : String} {optional : Bool} {parent : Handle}
      {values : List V} {shown : String} :
      RefusedFor (.select kind name optional parent values) (.domain shown .empty)
  | duplicate {kind : SelectKind} {name : String} {optional : Bool} {parent : Handle}
      {values : List V} {shown : String} {v : V} :
      RefusedFor (.select kind name optional parent values) (.domain shown (.duplicate v))

/-- The name that an answer mentions. -/
def Answer.name? : Answer V → Option String
  | .created v => some v.name
  | .refused (.domain name _) => some name
  | .refused (.layout _) => none
  | .added => none
  | .named name => some name

theorem Answer.created?_eq_some {answer : Answer V} {v : Variable V} :
    answer.created? = some v ↔ answer = .created v := by
  cases answer <;> simp [created?]

/-- The name that was made up for the request. -/
def Exchange.madeUp? (x : Exchange V) : Option String :=
  if x.request.unnamed then x.answer.name? else none

/-- The names that were made up, in order. -/
def Transcript.madeUp (t : Transcript V) : List String := t.filterMap Exchange.madeUp?

/-- What shows of the identities that were handed out for a request. -/
structure Exchange.Shows (x : Exchange V) (ids : List VarId) : Prop where
  length_eq : ids.length = x.request.ids
  /-- A new variable has the last of them. -/
  created : ∀ v, x.answer = .created v → ∃ id, ids.getLast? = some id ∧ v.id? = some id
  /-- A name is made up with the first. -/
  madeUp : x.request.unnamed = true → ∃ id, ids.head? = some id ∧ x.answer.name? = some id.madeUp

namespace Builder

/-! ## What requests take -/

/-- Hands out identities, one after the other. -/
def draw (b : Builder) : Nat → Except Fault (List VarId × Builder)
  | 0 => .ok ([], b)
  | count + 1 => do
    let (id, b) ← b.fresh
    let (ids, b) ← b.draw count
    return (id :: ids, b)

/-- Serves the requests in order: the transcript, and the session afterwards. -/
def serveAll (b : Builder) : List (Request V) → Except Fault (Transcript V × Builder)
  | [] => .ok ([], b)
  | r :: rs => do
    let (answer, b) ← b.serve r
    let (t, b) ← b.serveAll rs
    return (⟨r, answer⟩ :: t, b)

/-- The identities that each of the requests takes when they are served in order, drawn as
`fresh` hands them out. -/
def handOutAll (b : Builder) : List (Request V) → Except Fault (List (List VarId))
  | [] => .ok []
  | r :: rs => do
    let (ids, _) ← b.draw r.ids
    let (_, b) ← b.serve r
    let later ← b.handOutAll rs
    return ids :: later

/-- The identities that come next. -/
def next (b : Builder) (count : Nat) : List VarId := (List.range' b.counter count).map VarId.mk

theorem length_next (b : Builder) (count : Nat) : (b.next count).length = count := by
  simp [next]

theorem head?_next (b : Builder) (count : Nat) :
    (b.next (count + 1)).head? = some ⟨b.counter⟩ := by
  simp [next, List.range'_succ]

theorem getLast?_next (b : Builder) (count : Nat) :
    (b.next (count + 1)).getLast? = some ⟨b.counter + count⟩ := by
  simp [next, List.getLast?_range']

/-- What comes next goes on where the counter is. -/
theorem next_append {b b' : Builder} {count : Nat} (h : b'.counter = b.counter + count)
    (more : Nat) : b.next count ++ b'.next more = b.next (count + more) := by
  rw [next, next, h, ← List.map_append, List.range'_append_1, next]

theorem pairwise_next (b : Builder) (count : Nat) :
    (b.next count).Pairwise fun id later => id.num < later.num :=
  List.pairwise_map.mpr List.pairwise_lt_range'

/-- Identities are handed out as they come, as long as the counter lasts. -/
theorem draw_eq_next {b : Builder} {count : Nat}
    (h : count = 0 ∨ b.counter + count < counterBound) :
    b.draw count = .ok (b.next count, b.skip count) := by
  induction count generalizing b with
  | zero => rfl
  | succ count ih =>
    have hlt : b.counter + (count + 1) < counterBound := by omega
    have hlater := @ih (b.skip 1) (.inr (by show b.counter + 1 + count < _; omega))
    have hids : (⟨b.counter⟩ : VarId) :: (b.skip 1).next count = b.next (count + 1) := by
      simp [next, skip, List.range'_succ]
    have hskip : (b.skip 1).skip count = b.skip (count + 1) := by
      simp [skip, Nat.add_assoc, Nat.add_comm 1]
    refine bind_eq_ok.mpr ⟨_, fresh_of_lt (by omega), bind_eq_ok.mpr ⟨_, hlater, ?_⟩⟩
    rw [← hids, ← hskip]
    rfl

/-! ## One request -/

/-- A name takes an identity if it is made up, and the one after that is the variable's. -/
theorem named_of_ok {b b₁ b₂ : Builder} {name name' : String} {id : VarId}
    (hname : b.nameOrDefault name = .ok (name', b₁)) (hfresh : b₁.fresh = .ok (id, b₂)) :
    b.counter + (nameIds name + 1) < counterBound ∧ id = ⟨b.counter + nameIds name⟩ ∧
      b₂ = b.skip (nameIds name + 1) ∧ (name = "" → name' = VarId.madeUp ⟨b.counter⟩) := by
  obtain ⟨hlt, rfl, rfl⟩ := fresh_eq_ok.mp hfresh
  unfold nameOrDefault at hname
  unfold nameIds
  by_cases hempty : name = ""
  · rw [if_pos hempty] at hname
    obtain ⟨_, rfl, rfl⟩ := defaultName_eq_ok.mp hname
    rw [if_pos hempty]
    exact ⟨hlt, rfl, rfl, fun _ => rfl⟩
  · rw [if_neg hempty] at hname
    cases hname
    rw [if_neg hempty]
    exact ⟨by omega, rfl, by rw [Nat.zero_add]; rfl, fun h => absurd h hempty⟩

/-- A variable is not refused under an identity that is not registered. -/
theorem eq_ok_of_place {α : Type} {b : Builder} {toVariable : α → Variable V} {result : α}
    {built : Built V α} {id : VarId} (hid : (toVariable result).id? = some id)
    (hnew : b.layout.find? id = none) (h : b.place (toVariable result) result = .ok built) :
    ∃ b', built = ⟨.ok result, b'⟩ ∧ b'.counter = b.counter := by
  obtain ⟨⟨b', added⟩, hadded, h⟩ := bind_eq_ok.mp h
  match added with
  | .ok () =>
    obtain ⟨_, _, cs, _, rfl⟩ := (add_eq_ok hid).mp hadded
    cases h
    exact ⟨_, rfl, rfl⟩
  | .error cause =>
    have hlisted := ((add_eq_error hid).mp hadded).1
    rw [Layout.contains_eq_false.mpr hnew] at hlisted
    cases hlisted

/-- A served request takes the identities that come next, and no more; what shows of them
shows, and it is refused for its values only. -/
structure ServedFresh (b : Builder) (r : Request V) (answer : Answer V) (b' : Builder) :
    Prop where
  drawn : b.draw r.ids = .ok (b.next r.ids, b.skip r.ids)
  counter_eq : b'.counter = b.counter + r.ids
  shows : Exchange.Shows ⟨r, answer⟩ (b.next r.ids)
  refusedFor : ∀ cause, answer = .refused cause → r.RefusedFor cause

/-- A variable that is placed under the last of the identities is created. -/
theorem servedFresh_of_place {α : Type} {b b' : Builder} {toVariable : α → Variable V}
    {result : α} {built : Built V α} {r : Request V} {answer : Answer V} (named : Nat)
    (handed : b.Handed) (hids : r.ids = named + 1)
    (hlt : b.counter + (named + 1) < counterBound)
    (hid : (toVariable result).id? = some ⟨b.counter + named⟩)
    (hname : r.unnamed = true → (toVariable result).name = VarId.madeUp ⟨b.counter⟩)
    (hplace : (b.skip (named + 1)).place (toVariable result) result = .ok built)
    (hanswer : built.answer toVariable = (answer, b')) : b.ServedFresh r answer b' := by
  have hnew : (b.skip (named + 1)).layout.find? ⟨b.counter + named⟩ = none :=
    handed.find?_eq_none (Nat.le_add_right _ _)
  obtain ⟨b₁, rfl, hcounter⟩ := eq_ok_of_place hid hnew hplace
  cases hanswer
  refine ⟨draw_eq_next (.inr (hids ▸ hlt)), hids ▸ hcounter, ⟨length_next _ _, ?_, ?_⟩, ?_⟩
  · rintro v ⟨⟩
    rw [hids]
    exact ⟨_, getLast?_next _ _, hid⟩
  · intro hunnamed
    rw [hids]
    exact ⟨_, head?_next _ _, congrArg some (hname hunnamed)⟩
  · intro cause h
    cases h

/-- **What a request takes, shows and may be refused for.** -/
theorem servedFresh_of_serve {b b' : Builder} (handed : b.Handed) {r : Request V}
    {answer : Answer V} (h : b.serve r = .ok (answer, b')) : b.ServedFresh r answer b' := by
  cases r with
  | flag name payload parent =>
    obtain ⟨built, hbuilt, hanswer⟩ := map_eq_ok.mp h
    obtain ⟨⟨name', b₁⟩, hname, hbuilt⟩ := bind_eq_ok.mp hbuilt
    obtain ⟨⟨id, b₂⟩, hfresh, hbuilt⟩ := bind_eq_ok.mp hbuilt
    obtain ⟨hlt, rfl, rfl, hmadeUp⟩ := named_of_ok hname hfresh
    refine servedFresh_of_place _ handed rfl hlt rfl ?_ hbuilt hanswer
    exact fun hunnamed => hmadeUp (of_decide_eq_true hunnamed)
  | select kind name optional parent values =>
    obtain ⟨built, hbuilt, hanswer⟩ := map_eq_ok.mp h
    obtain ⟨⟨name', b₁⟩, hname, hbuilt⟩ := bind_eq_ok.mp hbuilt
    obtain ⟨⟨id, b₂⟩, hfresh, hbuilt⟩ := bind_eq_ok.mp hbuilt
    obtain ⟨hlt, rfl, rfl, hmadeUp⟩ := named_of_ok hname hfresh
    obtain ⟨attempt, hattempt, hbuilt⟩ := bind_eq_ok.mp hbuilt
    match attempt with
    | .ok s =>
      obtain ⟨domain, _, hs⟩ := Select.ofList_eq_ok.mp hattempt
      obtain ⟨_, rfl⟩ := Select.ofDomain_eq_ok.mp hs
      refine servedFresh_of_place _ handed rfl hlt rfl ?_ hbuilt hanswer
      exact fun hunnamed => hmadeUp (of_decide_eq_true hunnamed)
    | .error refusal =>
      obtain ⟨cause, hcause, rfl⟩ := Select.ofList_eq_refused.mp hattempt
      cases hbuilt
      cases hanswer
      refine ⟨draw_eq_next (.inr hlt), rfl, ⟨length_next _ _, ?_, ?_⟩, ?_⟩
      · intro v h
        cases h
      · intro hunnamed
        exact ⟨_, head?_next _ _, congrArg some (hmadeUp (of_decide_eq_true hunnamed))⟩
      · rintro _ ⟨⟩
        cases cause with
        | empty => exact .empty
        | duplicate v => exact .duplicate
        | missing v declared => exact absurd hcause Domain.ofList_ne_missing
  | rebaseFlag f parent =>
    obtain ⟨built, hbuilt, hanswer⟩ := map_eq_ok.mp h
    obtain ⟨⟨id, b₁⟩, hfresh, hbuilt⟩ := bind_eq_ok.mp hbuilt
    obtain ⟨hlt, rfl, rfl⟩ := fresh_eq_ok.mp hfresh
    exact servedFresh_of_place 0 handed rfl hlt rfl nofun hbuilt hanswer
  | rebaseSelect s parent =>
    obtain ⟨built, hbuilt, hanswer⟩ := map_eq_ok.mp h
    obtain ⟨⟨id, b₁⟩, hfresh, hbuilt⟩ := bind_eq_ok.mp hbuilt
    obtain ⟨hlt, rfl, rfl⟩ := fresh_eq_ok.mp hfresh
    obtain ⟨rebased, hrebased, hbuilt⟩ := bind_eq_ok.mp hbuilt
    obtain ⟨_, rfl⟩ := Select.ofDomain_eq_ok.mp hrebased
    exact servedFresh_of_place 0 handed rfl hlt rfl nofun hbuilt hanswer
  | addConstraint c =>
    cases h
    exact ⟨rfl, rfl, ⟨rfl, nofun, nofun⟩, nofun⟩
  | defaultName =>
    obtain ⟨⟨name, b₁⟩, hname, hanswer⟩ := map_eq_ok.mp h
    obtain ⟨hlt, rfl, rfl⟩ := defaultName_eq_ok.mp hname
    cases hanswer
    exact ⟨draw_eq_next (.inr hlt), rfl, ⟨rfl, nofun, fun _ => ⟨_, rfl, rfl⟩⟩, nofun⟩

/-! ## Any number of requests -/

theorem handed_new (root : String) : (Builder.new root).Handed := by
  intro id r hr
  cases hr

/-- **What requests take, show and may be refused for**, from any state in which what is
registered has been handed out. -/
theorem exists_handOutAll {b b' : Builder} {rs : List (Request V)} {t : Transcript V}
    (handed : b.Handed) (h : b.serveAll rs = .ok (t, b')) :
    ∃ grants, b.handOutAll rs = .ok grants ∧
      grants.flatten = b.next grants.flatten.length ∧
      b'.counter = b.counter + grants.flatten.length ∧
      List.Forall₂ Exchange.Shows t grants ∧
      ∀ x ∈ t, ∀ cause, x.answer = .refused cause → x.request.RefusedFor cause := by
  induction rs generalizing b t with
  | nil =>
    cases h
    exact ⟨[], rfl, rfl, rfl, .nil, fun x hx => absurd hx List.not_mem_nil⟩
  | cons r rs ih =>
    obtain ⟨⟨answer, b₁⟩, hserve, h⟩ := bind_eq_ok.mp h
    obtain ⟨⟨later, b₂⟩, hlater, h⟩ := bind_eq_ok.mp h
    cases h
    have fresh := servedFresh_of_serve handed hserve
    obtain ⟨grants, hgrants, hnext, hcounter, hshows, hrefused⟩ :=
      ih ((served_of_serve hserve).handed handed) hlater
    have hlength : (b.next r.ids :: grants).flatten.length = r.ids + grants.flatten.length := by
      rw [List.flatten_cons, List.length_append, length_next]
    refine ⟨b.next r.ids :: grants, ?_, ?_, ?_, .cons fresh.shows hshows, ?_⟩
    · exact bind_eq_ok.mpr ⟨_, fresh.drawn, bind_eq_ok.mpr ⟨_, hserve,
        bind_eq_ok.mpr ⟨_, hgrants, rfl⟩⟩⟩
    · -- the later requests go on where this one stopped
      rw [hlength, List.flatten_cons, ← next_append fresh.counter_eq, ← hnext]
    · rw [hlength, hcounter, fresh.counter_eq, Nat.add_assoc]
    · intro x hx
      rcases List.mem_cons.mp hx with rfl | hold
      · exact fresh.refusedFor
      · exact hrefused x hold

end Builder

namespace Exchange

variable {t : Transcript V} {grants : List (List VarId)}

/-- Whatever shows of one identity of each request comes in the order in which they were
handed out. -/
theorem filterMap_sublist {α : Type} {shown : Exchange V → Option α} {name : VarId → α}
    (hshown : ∀ x ids, Exchange.Shows x ids → ∀ a, shown x = some a →
      ∃ id ∈ ids, a = name id)
    (shows : List.Forall₂ Exchange.Shows t grants) :
    (t.filterMap shown).Sublist (grants.flatten.map name) := by
  induction shows with
  | nil => exact .refl _
  | @cons x ids t grants hx _ ih =>
    rw [List.flatten_cons, List.map_append]
    cases ha : shown x with
    | none =>
      rw [List.filterMap_cons_none ha]
      exact ih.trans (List.sublist_append_right _ _)
    | some a =>
      obtain ⟨id, hid, rfl⟩ := hshown x ids hx a ha
      rw [List.filterMap_cons_some ha]
      exact (List.singleton_sublist.mpr (List.mem_map_of_mem hid)).append ih

/-- The identities of the variables come in the order in which they were handed out. -/
theorem created_sublist (shows : List.Forall₂ Exchange.Shows t grants) :
    (t.created.map (·.id?)).Sublist (grants.flatten.map some) := by
  rw [Transcript.created, List.map_filterMap]
  refine filterMap_sublist (fun x ids hx a ha => ?_) shows
  obtain ⟨v, hv, rfl⟩ := Option.map_eq_some_iff.mp ha
  obtain ⟨id, hid, hvid⟩ := hx.created v (Answer.created?_eq_some.mp hv)
  exact ⟨id, List.mem_of_getLast? hid, hvid⟩

/-- So do the names that were made up. -/
theorem madeUp_sublist (shows : List.Forall₂ Exchange.Shows t grants) :
    t.madeUp.Sublist (grants.flatten.map VarId.madeUp) := by
  refine filterMap_sublist (fun x ids hx name hname => ?_) shows
  unfold madeUp? at hname
  split at hname
  · next hunnamed =>
    obtain ⟨id, hid, hmadeUp⟩ := hx.madeUp hunnamed
    cases hname.symm.trans hmadeUp
    exact ⟨id, List.mem_of_mem_head? hid, rfl⟩
  · cases hname

end Exchange

/-! ## A session -/

/-- What the identities that a session has handed out have to do with what it was asked for
and with what it answered. -/
structure Builder.HandsOutNew (b : Builder) (t : Transcript V) (grants : List (List VarId)) :
    Prop where
  /-- None comes back. -/
  ascending : grants.flatten.Pairwise fun id later => id.num < later.num
  /-- There are no others. -/
  length_eq : grants.flatten.length = b.counter
  shows : List.Forall₂ Exchange.Shows t grants
  /-- No two variables have the same identity. -/
  identities : (t.created.map (·.id?)).Nodup
  /-- No name is made up twice. -/
  names : t.madeUp.Nodup
  refusedFor : ∀ x ∈ t, ∀ cause, x.answer = .refused cause → x.request.RefusedFor cause

/-- **Identities and made-up names are new.** As long as no request faults, and whatever the
variables are to be nested under, identities are handed out in ascending order, to variables,
to selects that are refused and to the names that are made up. No two variables have the same
one and no name is made up twice. So nothing is refused for being registered already: only a
select is refused, because of its values. -/
theorem Builder.identities_fresh {root : String} {rs : List (Request V)} {t : Transcript V}
    {b : Builder} (h : (Builder.new root).serveAll rs = .ok (t, b)) :
    ∃ grants, (Builder.new root).handOutAll rs = .ok grants ∧ b.HandsOutNew t grants := by
  obtain ⟨grants, hgrants, hnext, hcounter, hshows, hrefused⟩ :=
    exists_handOutAll (handed_new root) h
  have hascending : grants.flatten.Pairwise fun id later => id.num < later.num := by
    rw [hnext]
    exact pairwise_next _ _
  have hnodup : grants.flatten.Nodup := hascending.imp fun hlt heq => by
    rw [heq] at hlt
    exact Nat.lt_irrefl _ hlt
  refine ⟨grants, hgrants, hascending, ?_, hshows, ?_, ?_, hrefused⟩
  · rw [hcounter]
    exact (Nat.zero_add _).symm
  · exact (hnodup.map (Option.some_injective _)).sublist (Exchange.created_sublist hshows)
  · exact (hnodup.map VarId.madeUp_injective).sublist (Exchange.madeUp_sublist hshows)

/-! ## A sketch

A session in which hardly anything has a name, two selects are refused, and something is
nested under a handle that the session has not given out. -/

namespace Sketch

def cover : Flag Nat := ⟨⟨4⟩, VarId.madeUp ⟨3⟩, .root, 7⟩

def tags : Select Nat :=
  ⟨⟨7⟩, VarId.madeUp ⟨6⟩, cover.handle, .multiple, true, ⟨[5, 6], by decide, by decide⟩, .inl rfl⟩

/-- An optional select may be nested under the root as well. -/
theorem anchored_copy : true = true ∨ Handle.root.anchor.InRange := .inl rfl

def copy : Select Nat :=
  ⟨⟨9⟩, tags.name, .root, .multiple, true, tags.domain, anchored_copy⟩

/-- A flag has no options, but this one is followed by some bits. -/
def stray : Handle := .option ⟨cover.ref, 1⟩

def requests : List (Request Nat) :=
  [.defaultName, .select .nominal "" false .root [], .flag "" 7 .root,
   .select .multiple "tags" true .root [5, 6, 5], .select .multiple "" true cover.handle [5, 6],
   .rebaseFlag Parcel.gift stray, .rebaseSelect tags .root]

def transcript : Transcript Nat :=
  [⟨.defaultName, .named (VarId.madeUp ⟨0⟩)⟩,
   ⟨.select .nominal "" false .root [], .refused (.domain (VarId.madeUp ⟨1⟩) .empty)⟩,
   ⟨.flag "" 7 .root, .created (.flag cover)⟩,
   ⟨.select .multiple "tags" true .root [5, 6, 5], .refused (.domain "tags" (.duplicate 5))⟩,
   ⟨.select .multiple "" true cover.handle [5, 6], .created (.select tags)⟩,
   ⟨.rebaseFlag Parcel.gift stray, .created (.flag (Parcel.gift.rebase ⟨8⟩ stray))⟩,
   ⟨.rebaseSelect tags .root, .created (.select copy)⟩]

/-- What a sketch takes from the counter, and what shows of it. -/
theorem sketch_fresh : ∃ b, (Builder.new "sketch").serveAll requests = .ok (transcript, b) ∧
    ∃ grants, (Builder.new "sketch").handOutAll requests = .ok grants ∧
      b.HandsOutNew transcript grants :=
  ⟨_, rfl, Builder.identities_fresh rfl⟩

end Sketch

end ChoiceTree
