import Muster.Duration
import Muster.Pool.Basic

/-!
Why a request about functionalities fails.
-/

namespace Muster

/-- A request that cannot be answered. -/
inductive RequestError where
  /-- The request is not meaningful. -/
  | invalidArgument (reason : String) (pool : Pool) (functionalities : List Model)
  /-- A pool cannot meet the constraints of a resource. -/
  | unsatisfiable (resource : Model) (pool : Pool) (reason : String)
  | unknownFunctionality (functionality : Model)
  /-- The time was up. -/
  | timeout (elapsed : Duration)
  | model (e : ModelError)
deriving DecidableEq, Inhabited

namespace RequestError

/-- Whether the time was up. -/
def isTimeout : RequestError → Bool
  | timeout _ => true
  | _ => false

/-- The wording of an error. -/
def message : RequestError → String
  | invalidArgument reason pool fs =>
    "invalid argument: " ++ reason ++ " (pool: " ++ pool.text ++ ", functionalities: " ++
      Model.listText fs ++ ")"
  | unsatisfiable r pool reason =>
    "'" ++ r.id ++ "' cannot be satisfied by " ++ pool.text ++ ": " ++ reason
  | unknownFunctionality f => "unknown functionality '" ++ f.id ++ "'"
  | timeout elapsed => "search timed out after " ++ elapsed.text
  | model e => e.message

end RequestError
end Muster
