import Muster.Coalition.Agent
import Muster.Double.Text
import Muster.Search.Statistics
import Muster.Search.Termination

/-!
What a search for coalition structures finds.
-/

namespace Muster

/-- The coalitions that were found, their value, why the search ended, and what it counted. -/
structure CoalitionOutcome where
  coalitions : List (List Agent)
  value : Double
  reason : TerminationReason
  statistics : SearchStatistics
deriving DecidableEq, Inhabited

namespace CoalitionOutcome

/-- Whether no coalitions were found. -/
def isEmpty (o : CoalitionOutcome) : Bool := o.coalitions.isEmpty

/-- The pools of the coalitions. -/
def pools (o : CoalitionOutcome) : List Pool := o.coalitions.map .ofAgents

/-- The text of an outcome. -/
def text (o : CoalitionOutcome) : String :=
  "CoalitionOutcome(value: " ++ o.value.text ++ ", reason: " ++ o.reason.text ++ ", [" ++
    ", ".intercalate (o.pools.map Pool.text) ++ "])"

end CoalitionOutcome
end Muster
