import Muster.Model

/-!
What can go wrong when pools, requirements and bounds are built.
-/

namespace Muster

/-- A failure to build something from models. -/
inductive ModelError where
  /-- The input describes nothing meaningful. -/
  | invalidArgument (reason : String)
  /-- No value satisfies the constraints on a property. -/
  | unsatisfiable (property : Model) (reason : String)
deriving DecidableEq, Inhabited

/-- The wording of an error. -/
def ModelError.message : ModelError → String
  | invalidArgument reason => "invalid argument: " ++ reason
  | unsatisfiable property reason =>
    "constraints on property '" ++ property.id ++ "' cannot be satisfied: " ++ reason

/-- The text of a list of models, by their identifiers. -/
def Model.listText (models : List Model) : String :=
  "[" ++ ", ".intercalate (models.map Model.id) ++ "]"

end Muster
