import ChoiceTree.Flag
import ChoiceTree.Select

/-!
# Decision variables

The variables of a model form a tree through their parents: the root, which
takes no bits and is always active, flags, and selects. An optional variable
owns an activation bit; a mandatory one is active whenever its parent is.
-/

namespace ChoiceTree

/-- A node of the tree of decisions. -/
inductive Variable (V : Type) [BEq V] where
  | root (name : String)
  | flag (f : Flag V)
  | select (s : Select V)

namespace Variable

variable {V : Type} [BEq V]

/-- The name, which need not be unique. -/
def name : Variable V → String
  | .root name => name
  | .flag f => f.name
  | .select s => s.name

/-- How the variable is called in messages. -/
def label : Variable V → String
  | .root name => "Root(" ++ name ++ ")"
  | .flag f => f.label
  | .select s => s.label

def handle : Variable V → Handle
  | .root _ => .root
  | .flag f => f.handle
  | .select s => s.handle

/-- What the variable is nested under; the root is nested under nothing. -/
def parent : Variable V → Except Fault Handle
  | .root _ => .error .rootParent
  | .flag f => .ok f.parent
  | .select s => .ok s.parent

def optional : Variable V → Bool
  | .root _ => false
  | .flag _ => true
  | .select s => s.optional

/-- The number of bits of the variable. -/
def size : Variable V → Nat
  | .root _ => 0
  | .flag _ => 1
  | .select s => s.size

/-- The identity, which the root has none of. -/
def id? : Variable V → Option VarId
  | .root _ => none
  | .flag f => some f.id
  | .select s => some s.id

/-- The handle that the variable is active with. -/
def governor : Variable V → Handle
  | .root _ => .root
  | .flag f => f.handle
  | .select s => s.governor

/-- The literal of the variable being active. -/
def toLiteral (layout : Layout) (v : Variable V) : Except Fault Literal :=
  v.handle.toLiteral layout

/-- The literal of the parent being active, none if it always is. -/
def parentLiteral (layout : Layout) : Variable V → Except Fault (Option Literal)
  | .root _ => .ok none
  | .flag f => f.parent.guard layout
  | .select s => s.parent.guard layout

/-- What makes the variable's bits represent it. -/
def implicitConstraints (layout : Layout) : Variable V → Except Fault (List Constraint)
  | .root _ => .ok []
  | .flag _ => .ok []
  | .select s => s.implicitConstraints layout

/-- What ties an optional variable to its parent: it is only active while the
parent is. -/
def scopeConstraints (layout : Layout) (v : Variable V) : Except Fault (List Constraint) :=
  if v.optional then do
    match ← v.parentLiteral layout with
    | none => return []
    | some parent =>
      let own ← v.toLiteral layout
      return [.disjunction [← own.negate, parent]]
  else .ok []

/-- The option of a declared value; only selects declare values. -/
def get [ValueText V] : Variable V → V → Except Fault (SelectOption V)
  | .root _, _ => .error .rootLookup
  | .flag f, _ => .error (.flagLookup f.name)
  | .select s, v => s.get v

/-- The same variable under another identity and parent; the root stays where it
is. -/
def rebase (id : VarId) (parent : Handle) : Variable V → Except Fault (Variable V)
  | .root _ => .error .rootRebase
  | .flag f => .ok (.flag (f.rebase id parent))
  | .select s => .select <$> s.rebase id parent

/-- Variables of different sorts are never equal. -/
instance : BEq (Variable V) where
  beq
    | .root a, .root b => a == b
    | .flag f, .flag g => f == g
    | .select s, .select t => s == t
    | _, _ => false

end Variable

/-- Reserves the variable's bits: the layout afterwards, and their positions unless the
variable is refused. The root has no bits: it is given the empty range at the end. -/
def Layout.register {V : Type} [BEq V] (layout : Layout) (v : Variable V) :
    Except Fault (Layout × Except LayoutError Span) :=
  match v.id? with
  | none => .ok (layout, .ok ⟨layout.size, layout.size⟩)
  | some id => layout.reserve id v.size

/-- The same for a caller who only goes on with the layout if the variable is not refused. -/
def Variable.register {V : Type} [BEq V] (v : Variable V) (layout : Layout) :
    Except Fault (Except LayoutError (Layout × Span)) := do
  let (layout, answer) ← layout.register v
  return answer.map fun span => (layout, span)

end ChoiceTree
