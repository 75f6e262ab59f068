/-!
# Variable identities

Every variable of a model is known by a number. Identities are handed out by a
build session and written `v0`, `v1`, ….
-/

namespace ChoiceTree

/-- The identity of a variable, unique within one build session. -/
structure VarId where
  /-- The number behind the identity. -/
  num : Nat
  deriving DecidableEq

namespace VarId

/-- `v` followed by the number. -/
def text (id : VarId) : String := "v" ++ toString id.num

/-- Identities are ordered by number, hence by age within a session. -/
instance : LE VarId := ⟨fun a b => a.num ≤ b.num⟩

instance (a b : VarId) : Decidable (a ≤ b) := inferInstanceAs (Decidable (a.num ≤ b.num))

theorem le_def {a b : VarId} : a ≤ b ↔ a.num ≤ b.num := Iff.rfl

end VarId

end ChoiceTree
