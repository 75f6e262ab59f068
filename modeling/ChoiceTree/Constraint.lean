import ChoiceTree.Assignment

/-!
# Constraints

What an encoding asks of an assignment: clauses, cardinality bounds, and
equivalences that tie a constraint to a literal. Nothing is expanded into
clauses here; a constraint is only evaluated under a complete assignment and
written out.
-/

namespace ChoiceTree

/-- How a count is compared with a bound. -/
inductive Relation where
  /-- At most. -/
  | le
  deriving DecidableEq

namespace Relation

/-- Whether the count stands in the relation to the bound. -/
def holds : Relation → Nat → Nat → Bool
  | .le, count, bound => decide (count ≤ bound)

def text : Relation → String
  | .le => "<="

end Relation

/-- A condition on assignments. -/
inductive Constraint where
  /-- Some literal is true. -/
  | disjunction (literals : List Literal)
  /-- The number of true literals stands in the relation to the bound. -/
  | cardinality (literals : List Literal) (relation : Relation) (bound : Nat)
  /-- The literal is true exactly if the inner constraint is satisfied. -/
  | reified (literal : Literal) (inner : Constraint)
  deriving DecidableEq

/-- How many of the literals are true; each of them is looked at. -/
def trueCount {α : Type} [Assignment α] (a : α) : List Literal → Except Fault Nat
  | [] => .ok 0
  | l :: ls => do
      let holds ← l.eval a
      return holds.toNat + (← trueCount a ls)

namespace Constraint

/-- The literals that the constraint mentions, from the outside in. -/
def literals : Constraint → List Literal
  | .disjunction ls => ls
  | .cardinality ls _ _ => ls
  | .reified l inner => l :: inner.literals

/-- Whether the assignment satisfies the constraint. A disjunction is decided at
its first true literal; the literals behind it are not looked at. -/
def isSatisfied {α : Type} [Assignment α] (a : α) : Constraint → Except Fault Bool
  | .disjunction ls => ls.anyM (·.eval a)
  | .cardinality ls relation bound => do
      return relation.holds (← trueCount a ls) bound
  | .reified l inner => do
      let outer ← l.eval a
      return outer == (← isSatisfied a inner)

/-- The literals as they are listed in a constraint. -/
def listText (ls : List Literal) : String := ", ".intercalate (ls.map Literal.text)

/-- A clause and a bound list their literals in parentheses; an equivalence is
written `x0 <=> …`. -/
def text : Constraint → String
  | .disjunction ls => "Disjunction(" ++ listText ls ++ ")"
  | .cardinality ls relation bound =>
      "Cardinality(" ++ listText ls ++ ") " ++ relation.text ++ " " ++ toString bound
  | .reified l inner => l.text ++ " <=> " ++ inner.text

end Constraint

end ChoiceTree
