import ChoiceTree.Selection
import ChoiceTree.Variable

/-!
# Decoding

Reads the value of a variable back from an assignment, given where its bits
start and which literal governs its parent. Decoding looks at nothing but these
bits and this literal; that the variables of a model agree with each other is
the work of the model's constraints.
-/

namespace ChoiceTree

variable {α V : Type} [Assignment α]

/-- What a variable decodes to when it is present. -/
inductive Decoded (V : Type) where
  | root
  | flag (payload : V)
  | select (selection : Selection V)
  deriving DecidableEq

/-- Whether the assignment has the literal as its own, if there is one. -/
def agrees (a : α) : Option Literal → Except Fault Bool
  | none => .ok true
  | some l => do return (← Assignment.literal a l.index) == l

/-- Whether a variable whose bits start at `offset` is active: the parent is, and
the activation bit is set if there is one. -/
def isActive (a : α) (offset : Nat) (parent : Option Literal) (optional : Bool) :
    Except Fault Bool := do
  if ← agrees a parent then
    if optional then Assignment.isSet a offset else return true
  else return false

namespace Flag

/-- The payload, if the flag is active. -/
def decode (f : Flag V) (a : α) (offset : Nat) (parent : Option Literal) :
    Except Fault (Option V) := do
  return if ← isActive a offset parent true then some f.payload else none

end Flag

/-- The values among `rest` whose bits are set, where the first of `rest` is
option `index` and the option bits are those of `[start, stop)`. Each step jumps
to the next set bit. -/
def decodeFrom (a : α) (start stop index : Nat) (rest : List V) : Except Fault (List V) :=
  match rest with
  | [] => .ok []
  | v :: vs =>
    match Assignment.firstSet a (start + index) stop with
    | .error fault => .error fault
    | .ok none => .ok []
    | .ok (some skip) =>
      match h : (v :: vs).drop skip with
      | [] => .error (.optionRange (index + skip) (index + (vs.length + 1)))
      | chosen :: later => do
        return chosen :: (← decodeFrom a start stop (index + skip + 1) later)
termination_by rest.length
decreasing_by
  have := congrArg List.length h
  simp only [List.length_drop, List.length_cons] at this
  simp only [List.length_cons]
  omega

namespace Select

variable [BEq V]

/-- The chosen values, if the select is active. An active select without a
chosen option is a fault: no satisfying assignment has one. -/
def decode (s : Select V) (a : α) (offset : Nat) (parent : Option Literal) :
    Except Fault (Option (Selection V)) := do
  if ← isActive a offset parent s.optional then
    let start ← Address.add offset s.firstOption
    let stop ← Address.add start s.domain.size
    match s.kind with
    | .nominal =>
      match ← Assignment.firstSet a start stop with
      | none => .error (.noOptionSet s.label)
      | some index =>
        match s.domain.values[index]? with
        | some v => return some (.one v)
        | none => .error (.optionRange index s.domain.size)
    | .multiple =>
      match ← decodeFrom a start stop 0 s.domain.values with
      | [] => .error (.noOptionSet s.label)
      | values => return some (.many values)
  else return none

end Select

namespace Variable

variable [BEq V]

/-- What the variable decodes to, nothing if it is not active. The root is always
active. -/
def decode (v : Variable V) (a : α) (offset : Nat) (parent : Option Literal) :
    Except Fault (Option (Decoded V)) :=
  match v with
  | .root _ => .ok (some .root)
  | .flag f => do return (← f.decode a offset parent).map .flag
  | .select s => do return (← s.decode a offset parent).map .select

end Variable

end ChoiceTree
