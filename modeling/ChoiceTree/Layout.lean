import ChoiceTree.Handle
import ChoiceTree.Literal

/-!
# The layout of the bit space

A layout hands out the bit space from the bottom: each registered variable gets
the next few bits, in order of registration, and keeps them. The ranges follow
each other without gap or overlap, and the size of the layout is where the last
one ends.

What is known of a variable is looked up through a directory, which has the slot
of every registered variable in the list of reservations. List, directory and
size are kept beside each other and change together.
-/

namespace ChoiceTree

/-- The positions from `start` up to, but without, `stop`. -/
structure Span where
  start : Nat
  stop : Nat
  deriving DecidableEq

/-- The bits reserved for one variable. -/
structure Reservation where
  id : VarId
  start : Nat
  length : Nat
  deriving DecidableEq

/-- The positions of the reserved bits. -/
def Reservation.span (r : Reservation) : Span := ⟨r.start, r.start + r.length⟩

/-- A table from identities to slots of a list. -/
structure Directory where
  /-- What has been entered, the latest entry first. -/
  entries : List (VarId × Nat)
  deriving DecidableEq

namespace Directory

def empty : Directory := ⟨[]⟩

/-- The slot that was entered for the identity, the last one if there were several. -/
def get? (directory : Directory) (id : VarId) : Option Nat := directory.entries.lookup id

def contains (directory : Directory) (id : VarId) : Bool := (directory.get? id).isSome

/-- Enters a slot for the identity; it counts instead of any that was entered before. -/
def insert (directory : Directory) (id : VarId) (slot : Nat) : Directory :=
  ⟨(id, slot) :: directory.entries⟩

@[simp] theorem get?_empty (id : VarId) : empty.get? id = none := rfl

@[simp] theorem get?_insert (directory : Directory) (id other : VarId) (slot : Nat) :
    (directory.insert id slot).get? other =
      if other = id then some slot else directory.get? other := by
  rw [get?, insert, List.lookup_cons]
  cases h : other == id with
  | true => rw [if_pos (beq_iff_eq.mp h)]
  | false =>
    rw [if_neg (beq_eq_false_iff_ne.mp h)]
    rfl

end Directory

/-- The bits handed out so far. -/
structure Layout where
  /-- What has been reserved, in order of registration. -/
  reservations : List Reservation
  /-- The slots of the registered variables in the list. -/
  directory : Directory
  /-- The number of bits handed out. -/
  size : Nat
  /-- No slot is behind the end of the list. -/
  inside : ∀ id slot, directory.get? id = some slot → slot < reservations.length
  deriving DecidableEq

namespace Layout

/-- The layout that has handed out nothing. -/
def empty : Layout := ⟨[], .empty, 0, nofun⟩

/-- What is in the variable's slot, if it is registered. -/
def find? (layout : Layout) (id : VarId) : Option Reservation :=
  match h : layout.directory.get? id with
  | some slot =>
    have := layout.inside id slot h
    some layout.reservations[slot]
  | none => none

/-- Whether the variable is registered. -/
def contains (layout : Layout) (id : VarId) : Bool := layout.directory.contains id

/-- The layout with the next `length` bits reserved for `id`, in the slot behind the last
one. -/
def extend (layout : Layout) (id : VarId) (length : Nat) : Layout where
  reservations := layout.reservations ++ [⟨id, layout.size, length⟩]
  directory := layout.directory.insert id layout.reservations.length
  size := layout.size + length
  inside other slot h := by
    rw [Directory.get?_insert] at h
    rw [List.length_append, List.length_singleton]
    split at h
    · cases h
      exact Nat.lt_succ_self _
    · exact Nat.lt_succ_of_lt (layout.inside other slot h)

/-- Hands the next `length` bits to the variable, which must not have any yet: the layout
afterwards, and the positions of the bits. -/
def reserve (layout : Layout) (id : VarId) (length : Nat) :
    Except Fault (Layout × Except LayoutError Span) :=
  if layout.contains id then .ok (layout, .error (.alreadyRegistered id))
  else do
    let stop ← Address.add layout.size length
    return (layout.extend id length, .ok ⟨layout.size, stop⟩)

/-- The positions of the variable's bits. -/
def rangeOf (layout : Layout) (id : VarId) : Except LayoutError Span :=
  match layout.find? id with
  | some entry => .ok entry.span
  | none => .error (.notRegistered id)

/-- The position of the variable's first bit. -/
def startOf (layout : Layout) (id : VarId) : Except LayoutError Nat :=
  match layout.find? id with
  | some entry => .ok entry.start
  | none => .error (.notRegistered id)

/-- The position of the first bit of a variable that has to be registered. -/
def offsetOf (layout : Layout) (id : VarId) : Except Fault Nat :=
  (layout.startOf id).mapError .layout

/-- The number of registered variables. -/
def count (layout : Layout) : Nat := layout.reservations.length

def isEmpty (layout : Layout) : Bool := layout.reservations.isEmpty

/-- The registered variables with their bits, in order of registration. -/
def ranges (layout : Layout) : List (VarId × Span) :=
  layout.reservations.map fun entry => (entry.id, entry.span)

end Layout

/-- The positive literal of the anchor's bit. -/
def Anchor.toLiteral (layout : Layout) : Anchor → Except Fault Literal
  | .root => .error .rootLiteral
  | .bit owner position => do
      let start ← layout.offsetOf owner
      Literal.positive (← Address.add start position)

/-- The positive literal of what the handle stands for. A fault if the handle is
always active, or if its anchor belongs to no registered variable. -/
def Handle.toLiteral (layout : Layout) (handle : Handle) : Except Fault Literal := do
  (← handle.resolve).toLiteral layout

/-- The literal that has to be true for the handle to be active, none if the
handle is always active. -/
def Handle.guard (layout : Layout) (handle : Handle) : Except Fault (Option Literal) :=
  if handle.anchor.isRoot then .ok none else some <$> handle.toLiteral layout

end ChoiceTree
