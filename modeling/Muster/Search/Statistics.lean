import Muster.Counter
import Muster.Duration

/-!
What a search over candidates counts.
-/

namespace Muster

/-- Counters of a search, and how long it took. -/
structure SearchStatistics where
  candidates : Nat := 0
  evaluations : Nat := 0
  cacheHits : Nat := 0
  solutions : Nat := 0
  duration : Duration := .zero
deriving DecidableEq, Inhabited

namespace SearchStatistics

/-- One more candidate. -/
def countCandidate (s : SearchStatistics) : SearchStatistics :=
  { s with candidates := tally s.candidates }

/-- One more evaluation. -/
def countEvaluation (s : SearchStatistics) : SearchStatistics :=
  { s with evaluations := tally s.evaluations }

/-- One more answer that was known already. -/
def countCacheHit (s : SearchStatistics) : SearchStatistics :=
  { s with cacheHits := tally s.cacheHits }

/-- One more solution. -/
def countSolution (s : SearchStatistics) : SearchStatistics :=
  { s with solutions := tally s.solutions }

/-- The text of the statistics, line by line. -/
def text (s : SearchStatistics) : String :=
  String.join ([
    "Search Statistics:",
    "  Candidates: " ++ toString s.candidates,
    "  Evaluations: " ++ toString s.evaluations,
    "  Cache Hits: " ++ toString s.cacheHits,
    "  Solutions Found: " ++ toString s.solutions,
    "  Solve Duration (secs): " ++ s.duration.secondsText 3].map (· ++ "\n"))

end SearchStatistics
end Muster
