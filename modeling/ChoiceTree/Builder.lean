import ChoiceTree.Model

/-!
# Build sessions

A builder is one session of assembling a model. It numbers the variables,
lays out the bits of each one it creates and collects the constraints that the
encoding needs. Identities and default names come from one counter, which only
grows: what a refused request took from it stays taken.
-/

namespace ChoiceTree

/-- The state of a build session. -/
structure Builder where
  /-- The name of the root. -/
  root : String
  /-- The number of identities handed out. -/
  counter : Nat
  layout : Layout
  constraints : List Constraint
  deriving DecidableEq

/-- What a request for a variable comes to. -/
structure Built (V α : Type) where
  /-- The variable, or why there is none. -/
  result : Except (EncodingError V) α
  /-- The session afterwards. -/
  builder : Builder

namespace Builder

/-- The counter stays below this bound, `2 ^ 32`. -/
def counterBound : Nat := 4294967296

/-- The session that has nothing yet but a root of the given name. -/
def new (root : String) : Builder := ⟨root, 0, .empty, []⟩

/-- A session whose root has no name. -/
def default : Builder := new ""

/-- Hands out the next identity. -/
def fresh (b : Builder) : Except Fault (VarId × Builder) :=
  if b.counter + 1 < counterBound then .ok (⟨b.counter⟩, { b with counter := b.counter + 1 })
  else .error .additionOverflow

/-- A name that no other variable of the session gets by default. -/
def defaultName (b : Builder) : Except Fault (String × Builder) := do
  let (id, b) ← b.fresh
  return ("$x_" ++ toString id.num, b)

/-- The name itself, or a default one in place of the empty name. -/
def nameOrDefault (b : Builder) (name : String) : Except Fault (String × Builder) :=
  if name = "" then b.defaultName else .ok (name, b)

/-- Adds a constraint that does not come from a variable. -/
def addConstraint (b : Builder) (c : Constraint) : Builder :=
  { b with constraints := b.constraints ++ [c] }

/-- The model assembled so far. -/
def build (b : Builder) : Model := ⟨b.root, b.layout, b.constraints⟩

variable {V : Type} [BEq V]

/-- Lays out the bits of the variable and adds what ties them to each other and
to its parent: the session afterwards, and why the variable was refused if it was. -/
def add (b : Builder) (v : Variable V) : Except Fault (Builder × Except LayoutError Unit) := do
  let (layout, answer) ← b.layout.register v
  match answer with
  | .error cause => return ({ b with layout := layout }, .error cause)
  | .ok _ =>
    let implicit ← v.implicitConstraints layout
    let scope ← v.scopeConstraints layout
    let constraints := b.constraints ++ implicit ++ scope
    return ({ b with layout := layout, constraints := constraints }, .ok ())

/-- Adds the variable and gives `result` for it. -/
def place {α : Type} (b : Builder) (v : Variable V) (result : α) : Except Fault (Built V α) := do
  match ← b.add v with
  | (b, .error cause) => return ⟨.error (.layout cause), b⟩
  | (b, .ok ()) => return ⟨.ok result, b⟩

/-- Creates a flag. -/
def flag (b : Builder) (name : String) (payload : V) (parent : Handle) :
    Except Fault (Built V (Flag V)) := do
  let (name, b) ← b.nameOrDefault name
  let (id, b) ← b.fresh
  let f : Flag V := ⟨id, name, parent, payload⟩
  b.place (.flag f) f

/-- Creates a select of the given kind. It takes its identity before its values
are looked at. -/
def select (b : Builder) (kind : SelectKind) (name : String) (optional : Bool) (parent : Handle)
    (values : List V) : Except Fault (Built V (Select V)) := do
  let (name, b) ← b.nameOrDefault name
  let (id, b) ← b.fresh
  match ← Select.ofList kind id name optional parent values with
  | .error refusal => return ⟨.error refusal, b⟩
  | .ok s => b.place (.select s) s

/-- Creates a select that takes exactly one value. -/
def nominal (b : Builder) (name : String) (optional : Bool) (parent : Handle)
    (values : List V) : Except Fault (Built V (Select V)) :=
  b.select .nominal name optional parent values

/-- Creates a select that takes any non-empty set of values. -/
def multiple (b : Builder) (name : String) (optional : Bool) (parent : Handle)
    (values : List V) : Except Fault (Built V (Select V)) :=
  b.select .multiple name optional parent values

/-- Creates a copy of the flag under `parent`. -/
def rebaseFlag (b : Builder) (f : Flag V) (parent : Handle) :
    Except Fault (Built V (Flag V)) := do
  let (id, b) ← b.fresh
  b.place (.flag (f.rebase id parent)) (f.rebase id parent)

/-- Creates a copy of the select under `parent`. -/
def rebaseSelect (b : Builder) (s : Select V) (parent : Handle) :
    Except Fault (Built V (Select V)) := do
  let (id, b) ← b.fresh
  let rebased ← s.rebase id parent
  b.place (.select rebased) rebased

end Builder

end ChoiceTree
