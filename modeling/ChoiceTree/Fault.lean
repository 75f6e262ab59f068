import ChoiceTree.EncodingError

/-!
# Faults

A fault is a request that breaks the contract of the operation it is made to:
a bit outside an assignment, the literal of something that is always active, a
decoding that no satisfying assignment can lead to. Unlike an
`EncodingError` it is not an answer that a caller is meant to handle.
-/

namespace ChoiceTree

/-- How a request breaks the contract of an operation. -/
inductive Fault where
  /-- No literal exists for a bit this far out. -/
  | literalRange (index : Nat)
  /-- Zero is the signed form of no literal. -/
  | zeroLiteral
  /-- The least signed form has no opposite. -/
  | negationOverflow
  /-- A sum leaves the range of its numbers. -/
  | additionOverflow
  /-- A single bit lies outside an assignment of `size` bits. -/
  | bitRange (index size : Nat)
  /-- A window ends outside an assignment of `size` bits. -/
  | windowRange (stop size : Nat)
  /-- An assignment has fewer bits than the model it is decoded by. -/
  | narrowAssignment (size width : Nat)
  /-- The root is always active, so no literal stands for it. -/
  | rootLiteral
  | rootRebase
  | rootLookup
  | rootParent
  /-- A flag has no values to look up. -/
  | flagLookup (name : String)
  /-- The value, here already written out, is not declared by the variable of this name. -/
  | undeclared (name value : String) (declared : List String)
  | layout (cause : LayoutError)
  /-- The variable is active, but none of its options is set. -/
  | noOptionSet (label : String)
  /-- A select of `count` options is asked for one further out. -/
  | optionRange (index count : Nat)
  deriving DecidableEq

namespace Fault

/-- The wording of the fault. -/
def message : Fault → String
  | .literalRange index => s!"Bit index {index} is out of the literal range"
  | .zeroLiteral =>
      "assertion `left != right` failed: Literal must be nonzero\n  left: 0\n right: 0"
  | .negationOverflow => "attempt to negate with overflow"
  | .additionOverflow => "attempt to add with overflow"
  | .bitRange index size => s!"Bit index {index} out of bounds for instance of {size} bits"
  | .windowRange stop size =>
      s!"Bit range ending at {stop} out of bounds for instance of {size} bits"
  | .narrowAssignment size width =>
      s!"Instance of {size} bits is narrower than the model's {width} bits"
  | .rootLiteral =>
      "Root cannot be used in an expression. This is likely caused by using a mandatory " ++
        "variable defined in the root scope in an expression."
  | .rootRebase => "Root cannot be rebased."
  | .rootLookup => "Root cannot be used as a value."
  | .rootParent => "Root does not have a parent."
  | .flagLookup name => s!"Flag {name} has no domain to look up values in."
  | .undeclared name value declared => (DomainError.missing value declared).messageWith id name
  | .layout cause => cause.message
  | .noOptionSet label => s!"Inconsistent instance, should have something set for {label}."
  | .optionRange index count =>
      s!"index out of bounds: the len is {count} but the index is {index}"

end Fault

end ChoiceTree
