import ChoiceTree.Handle

/-!
# Flags

A flag is a single bit that carries a payload when it is set and nothing
otherwise. Flags are always optional.
-/

namespace ChoiceTree

/-- A variable that is present with its payload or absent. -/
structure Flag (V : Type) where
  id : VarId
  name : String
  parent : Handle
  payload : V
  deriving DecidableEq

namespace Flag

variable {V : Type}

def ref (f : Flag V) : VarRef := .optional f.id

def handle (f : Flag V) : Handle := .var f.ref

/-- How a flag is called in messages. -/
def label (f : Flag V) : String := "Flag(" ++ f.name ++ ")"

/-- The same flag under another identity and parent. -/
def rebase (f : Flag V) (id : VarId) (parent : Handle) : Flag V :=
  { f with id := id, parent := parent }

/-- The number of results a flag decodes to, absence included. -/
def outcomes (_ : Flag V) : Nat := 2

/-- Flags are equal if they agree in all parts; payloads are compared by the
equality they come with. -/
instance [BEq V] : BEq (Flag V) where
  beq f g := f.id == g.id && f.name == g.name && f.parent == g.parent && f.payload == g.payload

end Flag

end ChoiceTree
