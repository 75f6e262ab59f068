import ChoiceTree.Constraint
import ChoiceTree.Domain
import ChoiceTree.Layout

/-!
# Selects

A select chooses from a domain: exactly one value if it is nominal, any
non-empty set of values if it is multiple. Its bits are laid out as

* the activation bit, only if the select is optional;
* one bit per option, in the order of the domain.
-/

namespace ChoiceTree

/-- How many options an active select takes. -/
inductive SelectKind where
  /-- Exactly one. -/
  | nominal
  /-- At least one. -/
  | multiple
  deriving DecidableEq

/-- A variable whose value is chosen from a domain. -/
structure Select (V : Type) [BEq V] where
  id : VarId
  name : String
  parent : Handle
  kind : SelectKind
  /-- Whether the select may be absent while its parent is active. -/
  optional : Bool
  domain : Domain V
  /-- A mandatory select is active at an address. -/
  anchored : optional = true ∨ parent.anchor.InRange

/-- One declared value of a select. -/
structure SelectOption (V : Type) where
  ref : OptionRef
  value : V
  deriving DecidableEq

namespace SelectOption

variable {V : Type}

/-- The place of the option among the options of its select. -/
def index (o : SelectOption V) : Nat := o.ref.index

def handle (o : SelectOption V) : Handle := .option o.ref

/-- The handle of the select that declares the option. -/
def owner (o : SelectOption V) : Handle := .var o.ref.owner

/-- The literal of the option's bit. -/
def toLiteral (layout : Layout) (o : SelectOption V) : Except Fault Literal :=
  o.handle.toLiteral layout

end SelectOption

namespace Select

variable {V : Type} [BEq V]

/-- The select over the given domain. -/
def ofDomain (kind : SelectKind) (id : VarId) (name : String) (optional : Bool)
    (parent : Handle) (domain : Domain V) : Except Fault (Select V) :=
  if h : optional = true ∨ parent.anchor.InRange then
    .ok ⟨id, name, parent, kind, optional, domain, h⟩
  else .error .additionOverflow

/-- The select over the given values, which have to form a domain. -/
def ofList (kind : SelectKind) (id : VarId) (name : String) (optional : Bool) (parent : Handle)
    (values : List V) : Except Fault (Except (EncodingError V) (Select V)) :=
  match Domain.ofList values with
  | .ok domain => .ok <$> ofDomain kind id name optional parent domain
  | .error cause => .ok (.error (.domain name cause))

def ref (s : Select V) : VarRef := .under s.parent s.id s.optional

def handle (s : Select V) : Handle := .var s.ref

/-- How a select is called in messages. -/
def label (s : Select V) : String :=
  match s.kind with
  | .nominal => "Nominal(" ++ s.name ++ ")"
  | .multiple => "Multiple(" ++ s.name ++ ")"

/-- The declared values, each with its own handle. -/
def options (s : Select V) : List (SelectOption V) :=
  s.domain.values.mapIdx fun i v => ⟨⟨s.ref, i⟩, v⟩

/-- The number of bits in front of the option bits. -/
def firstOption (s : Select V) : Nat := s.optional.toNat

/-- The number of bits of the select. -/
def size (s : Select V) : Nat := s.domain.size + s.firstOption

/-- The handle that the select is active with: its own if it is optional,
otherwise its parent's. -/
def governor (s : Select V) : Handle := if s.optional then s.handle else s.parent

/-- The option that declares a value equal to `v`. -/
def find (s : Select V) (v : V) : Except (EncodingError V) (SelectOption V) :=
  match s.options.find? (·.value == v) with
  | some o => .ok o
  | none => .error (.domain s.name (.missing v s.domain.values))

/-- The option of a value that has to be declared. -/
def get [ValueText V] (s : Select V) (v : V) : Except Fault (SelectOption V) :=
  match s.options.find? (·.value == v) with
  | some o => .ok o
  | none =>
    .error (.undeclared s.name (ValueText.text v) (s.domain.values.map ValueText.text))

/-- The same choice under another identity and parent. -/
def rebase (s : Select V) (id : VarId) (parent : Handle) : Except Fault (Select V) :=
  ofDomain s.kind id s.name s.optional parent s.domain

/-- The number of results the select decodes to, absence included if the select
itself may be absent. -/
def outcomes (s : Select V) : Nat :=
  (match s.kind with
    | .nominal => s.domain.size
    | .multiple => Nat.pow 2 s.domain.size - 1) + s.optional.toNat

/-- What makes the bits represent the select: some option is set exactly while
the select is active, and of a nominal one at most one. -/
def implicitConstraints (s : Select V) (layout : Layout) : Except Fault (List Constraint) := do
  let literals ← s.options.mapM (SelectOption.toLiteral layout)
  let chosen ← match ← s.governor.guard layout with
    | none => pure (.disjunction literals)
    | some active => pure (.reified active (.disjunction literals))
  match s.kind with
  | .nominal => return [chosen, .cardinality literals .le 1]
  | .multiple => return [chosen]

/-- Selects are equal if they agree in all parts; values are compared by the
equality they come with. -/
instance : BEq (Select V) where
  beq s t := s.id == t.id && s.name == t.name && s.parent == t.parent && s.kind == t.kind &&
    s.optional == t.optional && s.domain.values == t.domain.values

end Select

namespace SelectOption

variable {V : Type} [BEq V]

/-- The option of `target` that declares this option's value. -/
def rebase [ValueText V] (o : SelectOption V) (target : Select V) :
    Except Fault (SelectOption V) := target.get o.value

end SelectOption

end ChoiceTree
