import Muster.Counter
import Muster.Duration
import Muster.Wiring.Pruning

/-!
What a wiring search counts.
-/

namespace Muster

/-- Counters of a wiring search, and how long it took. -/
structure WiringStatistics where
  nodes : Nat := 0
  backtracks : Nat := 0
  decisions : Nat := 0
  maxDepth : Nat := 0
  prunedDisconnected : Nat := 0
  prunedExhausted : Nat := 0
  solutions : Nat := 0
  duration : Duration := .zero
deriving DecidableEq, Inhabited

namespace WiringStatistics

/-- One more node visited. -/
def countNode (s : WiringStatistics) : WiringStatistics := { s with nodes := tally s.nodes }

/-- One more level left. -/
def countBacktrack (s : WiringStatistics) : WiringStatistics :=
  { s with backtracks := tally s.backtracks }

/-- One more choice tried. -/
def countDecision (s : WiringStatistics) : WiringStatistics :=
  { s with decisions := tally s.decisions }

/-- A depth that was reached. -/
def noteDepth (s : WiringStatistics) (depth : Nat) : WiringStatistics :=
  { s with maxDepth := raiseTo s.maxDepth depth }

/-- One more node pruned. -/
def countPruned (s : WiringStatistics) : PruneReason → WiringStatistics
  | .disconnected => { s with prunedDisconnected := tally s.prunedDisconnected }
  | .interfacesExhausted => { s with prunedExhausted := tally s.prunedExhausted }

/-- One more connected wiring found. -/
def countSolution (s : WiringStatistics) : WiringStatistics :=
  { s with solutions := tally s.solutions }

/-- The number of nodes pruned for either reason. -/
def prunings (s : WiringStatistics) : Nat := tallyAdd s.prunedDisconnected s.prunedExhausted

/-- The text of the statistics, line by line. -/
def text (s : WiringStatistics) : String :=
  String.join ([
    "Connectivity Search Statistics:",
    "  Nodes explored:         " ++ toString s.nodes,
    "  Backtracks:             " ++ toString s.backtracks,
    "  Max depth reached:      " ++ toString s.maxDepth,
    "  Decisions generated:    " ++ toString s.decisions,
    "  Prunings (disconnected):" ++ toString s.prunedDisconnected,
    "  Prunings (exhausted):   " ++ toString s.prunedExhausted,
    "  Solutions found:        " ++ toString s.solutions,
    "  Total time:             " ++ s.duration.roundedText 2].map (· ++ "\n"))

end WiringStatistics
end Muster
