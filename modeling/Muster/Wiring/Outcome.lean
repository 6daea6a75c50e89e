import Muster.Search.Termination
import Muster.Wiring.Graph
import Muster.Wiring.Statistics

/-!
What a wiring search finds out.
-/

namespace Muster

/-- The answer of a wiring search. -/
inductive WiringResult where
  | feasible (g : ConnectionGraph)
  | infeasible
  | unknown
deriving DecidableEq, Inhabited

namespace WiringResult

/-- Whether a connected wiring was found. -/
def isFeasible : WiringResult → Bool
  | feasible _ => true
  | _ => false

/-- Whether there is no connected wiring. -/
def isInfeasible : WiringResult → Bool
  | infeasible => true
  | _ => false

/-- Whether the search was stopped too early to tell. -/
def isUnknown : WiringResult → Bool
  | unknown => true
  | _ => false

/-- The wiring that was found. -/
def graph? : WiringResult → Option ConnectionGraph
  | feasible g => some g
  | _ => none

/-- The text of an answer. -/
def text : WiringResult → String
  | feasible g => "Feasible(" ++ g.text ++ ")"
  | infeasible => "Infeasible"
  | unknown => "Unknown"

/-- The wiring that was found, or a complaint. -/
def demand (r : WiringResult) : Except String ConnectionGraph :=
  match r with
  | feasible g => .ok g
  | _ => .error
    ("called `ConnectivityResult::unwrap_feasible()` on a non-feasible result: " ++ r.text)

end WiringResult

/-- The answer of a wiring search, why the search ended, and what it counted. -/
structure WiringOutcome where
  result : WiringResult
  reason : TerminationReason
  statistics : WiringStatistics
deriving DecidableEq, Inhabited

namespace WiringOutcome

/-- A wiring was found. -/
def feasible (g : ConnectionGraph) (reason : TerminationReason) (s : WiringStatistics) :
    WiringOutcome := ⟨.feasible g, reason, s⟩

/-- There is no wiring. -/
def infeasible (s : WiringStatistics) : WiringOutcome := ⟨.infeasible, .searchSpaceExhausted, s⟩

/-- The search was stopped, perhaps after it had found a wiring. -/
def aborted (g : Option ConnectionGraph) (reason : String) (s : WiringStatistics) :
    WiringOutcome :=
  ⟨match g with
    | some g => .feasible g
    | none => .unknown, .aborted reason, s⟩

/-- Whether a wiring was found. -/
def isFeasible (o : WiringOutcome) : Bool := o.result.isFeasible

/-- The text of an outcome. -/
def text (o : WiringOutcome) : String :=
  "ConnectivityOutcome(result: " ++ o.result.text ++ ", termination: " ++ o.reason.text ++ ")"

end WiringOutcome
end Muster
