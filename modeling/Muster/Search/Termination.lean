/-!
Why a search ended.
-/

namespace Muster

/-- The reason for the end of a search. -/
inductive TerminationReason where
  | solutionLimitReached
  | searchSpaceExhausted
  | aborted (reason : String)
deriving DecidableEq, Inhabited

namespace TerminationReason

/-- Whether the search was stopped before its end. -/
def isAborted : TerminationReason → Bool
  | aborted _ => true
  | _ => false

/-- Whether the answer of the search is final. -/
def isProven (r : TerminationReason) : Bool := !r.isAborted

/-- The text of a reason. -/
def text : TerminationReason → String
  | solutionLimitReached => "Solution Limit Reached"
  | searchSpaceExhausted => "Search Space Exhausted"
  | aborted reason => "Aborted: " ++ reason

end TerminationReason
end Muster
