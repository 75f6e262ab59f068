import ChoiceTree.Text.Quoted

/-!
# The text of values

Messages and reports show values of any type that says how to write them.
-/

namespace ChoiceTree

/-- Values that can be written in a message. -/
class ValueText (V : Type) where
  text : V → String

/-- Strings are written quoted. -/
instance : ValueText String := ⟨Text.quoteString⟩

instance : ValueText Bool := ⟨fun b => if b then "true" else "false"⟩

end ChoiceTree
