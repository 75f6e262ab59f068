import ChoiceTree.Address

/-!
# Handles

A handle stands for anything a literal can refer to: the root, a variable, or
one option of a select. It does not hold what it stands for; an option names
its owner.

Every handle has an anchor, the bit its literal resolves to. An optional
variable anchors at its own first bit, an option at its option bit, and a
mandatory variable where its parent does. A mandatory variable keeps a copy of
its parent's anchor, so a chain of mandatory variables, however long, anchors
where it starts.

An option reference may name any place, even one whose bit would have no
address. Such a handle can be shown and compared; resolving its anchor, or
placing a mandatory variable under it, is a fault.
-/

namespace ChoiceTree

/-- The bit that a literal resolves to. -/
inductive Anchor where
  /-- Always active; there is no bit. -/
  | root
  /-- The bit at `position` of the bits reserved for `owner`. -/
  | bit (owner : VarId) (position : Nat)
  deriving DecidableEq

/-- A reference to a variable. -/
inductive VarRef where
  /-- The variable has an activation bit, the first of its bits. -/
  | optional (id : VarId)
  /-- The variable is active when its parent is, which anchors at `anchor`. -/
  | mandatory (id : VarId) (anchor : Anchor)
  deriving DecidableEq

/-- A reference to one option of a select. -/
structure OptionRef where
  owner : VarRef
  /-- The place of the option among its owner's options. -/
  index : Nat
  deriving DecidableEq

/-- Anything that a literal can refer to. -/
inductive Handle where
  | root
  | var (ref : VarRef)
  | option (ref : OptionRef)
  deriving DecidableEq

namespace Anchor

def isRoot : Anchor → Bool
  | .root => true
  | .bit .. => false

/-- Whether the position is an address. -/
def InRange : Anchor → Prop
  | .root => True
  | .bit _ position => position < Address.bound

instance : DecidablePred InRange
  | .root => inferInstanceAs (Decidable True)
  | .bit _ position => inferInstanceAs (Decidable (position < Address.bound))

end Anchor

namespace VarRef

def id : VarRef → VarId
  | .optional id => id
  | .mandatory id _ => id

def isOptional : VarRef → Bool
  | .optional _ => true
  | .mandatory .. => false

/-- The bit that stands for the variable being active. -/
def anchor : VarRef → Anchor
  | .optional id => .bit id 0
  | .mandatory _ anchor => anchor

end VarRef

namespace OptionRef

/-- The place of the option's bit among its owner's bits, of which the first is
the activation bit if the owner is optional. -/
def position (option : OptionRef) : Nat := option.index + option.owner.isOptional.toNat

end OptionRef

namespace Handle

def isRoot : Handle → Bool
  | .root => true
  | _ => false

/-- The bit that the handle's literal resolves to. -/
def anchor : Handle → Anchor
  | .root => .root
  | .var ref => ref.anchor
  | .option ref => .bit ref.owner.id ref.position

/-- The anchor of a handle whose bit has to have an address. -/
def resolve (handle : Handle) : Except Fault Anchor :=
  if handle.anchor.InRange then .ok handle.anchor else .error .additionOverflow

theorem resolve_eq_ok {handle : Handle} (h : handle.anchor.InRange) :
    handle.resolve = .ok handle.anchor := if_pos h

/-- The variable that the handle belongs to: an option belongs to its owner. -/
def variableOf : Handle → Handle
  | .option ref => .var ref.owner
  | handle => handle

/-- `Root`, the identity of a variable, or an identity with the place of one of
its options in brackets. -/
def text : Handle → String
  | .root => "Root"
  | .var ref => ref.id.text
  | .option ref => ref.owner.id.text ++ "[" ++ toString ref.index ++ "]"

end Handle

namespace VarRef

/-- The reference to a variable with the given parent, whatever its anchor. -/
def under (parent : Handle) (id : VarId) (optional : Bool) : VarRef :=
  if optional then .optional id else .mandatory id parent.anchor

/-- The reference to a variable with the given parent. A mandatory variable takes
its parent's anchor, which has to have an address. -/
def new (parent : Handle) (id : VarId) (optional : Bool) : Except Fault VarRef :=
  if optional = true ∨ parent.anchor.InRange then .ok (under parent id optional)
  else .error .additionOverflow

@[simp] theorem id_under (parent : Handle) (id : VarId) (optional : Bool) :
    (under parent id optional).id = id := by
  cases optional <;> rfl

@[simp] theorem isOptional_under (parent : Handle) (id : VarId) (optional : Bool) :
    (under parent id optional).isOptional = optional := by
  cases optional <;> rfl

@[simp] theorem anchor_under (parent : Handle) (id : VarId) (optional : Bool) :
    (under parent id optional).anchor = if optional then .bit id 0 else parent.anchor := by
  cases optional <;> rfl

end VarRef

end ChoiceTree
