import Muster.Search.Monitor

/-!
Settings of a search for coalition structures.
-/

namespace Muster

/-- When a search ends: with a value that is good enough, after some time, or after a number of
structures. -/
structure CoalitionConfig where
  threshold : Double := .one
  timeLimit : Option Duration := none
  maxStructures : Option Nat := none
deriving DecidableEq, Inhabited

namespace CoalitionConfig

def withTimeLimit (c : CoalitionConfig) (d : Duration) : CoalitionConfig :=
  { c with timeLimit := d.asLimit }

/-- The text of a configuration. -/
def text (c : CoalitionConfig) : String :=
  "CoalitionConfig(threshold: " ++ c.threshold.text ++ ", time limit: " ++
    Duration.limitText c.timeLimit ++ ", max structures: " ++
    (match c.maxStructures with
      | some n => toString n
      | none => "none") ++ ")"

/-- The monitor that a configuration asks for. -/
def monitor (c : CoalitionConfig) (clock : Clock) : Monitor :=
  .composite (c.timeLimit.toList.map fun limit => .timeLimit { clock, limit, mask := 0 })

end CoalitionConfig
end Muster
