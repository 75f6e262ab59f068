import ChoiceTree.Text.Value
import ChoiceTree.VarId

/-!
# Causes of a refused encoding

A build session refuses a select whose values do not form a domain and a
variable that is already laid out. Lookups refuse undeclared values and unknown
variables. A refusal is an ordinary answer: the session goes on after it.
-/

namespace ChoiceTree

/-- What is wrong with a list of values, or with a value looked up in it. -/
inductive DomainError (V : Type) where
  /-- There is no value at all. -/
  | empty
  /-- The value equals an earlier one. -/
  | duplicate (value : V)
  /-- The value is not among the declared ones. -/
  | missing (value : V) (declared : List V)
  deriving DecidableEq

/-- What is wrong with a variable that a layout is asked about. -/
inductive LayoutError where
  /-- The variable already has its bits. -/
  | alreadyRegistered (id : VarId)
  /-- The variable has no bits. -/
  | notRegistered (id : VarId)
  deriving DecidableEq

/-- Why a request to encode a variable is refused. -/
inductive EncodingError (V : Type) where
  /-- The values of the variable with this name do not serve. -/
  | domain (name : String) (cause : DomainError V)
  | layout (cause : LayoutError)
  deriving DecidableEq

namespace DomainError

/-- The wording of the cause for the variable of the given name; `render`
writes a single value. -/
def messageWith {V : Type} (render : V → String) (name : String) : DomainError V → String
  | .empty => "Select " ++ name ++ " must have at least one value"
  | .duplicate value => "Duplicate value " ++ render value ++ " in variable " ++ name
  | .missing value declared =>
      "Value missing in variable " ++ name ++ ". Expected to find " ++ render value ++
        " in [" ++ ", ".intercalate (declared.map render) ++ "]"

end DomainError

namespace LayoutError

/-- The wording of the cause. -/
def message : LayoutError → String
  | .alreadyRegistered id => "Variable " ++ id.text ++ " is already registered"
  | .notRegistered id => "Variable " ++ id.text ++ " is not registered"

end LayoutError

namespace EncodingError

/-- The wording of the refusal. -/
def message {V : Type} [ValueText V] : EncodingError V → String
  | .domain name cause => cause.messageWith ValueText.text name
  | .layout cause => cause.message

end EncodingError

end ChoiceTree
