import Muster.Coalition.Config
import Muster.Coalition.Outcome
import Muster.Ordered.Sorted
import Muster.Partition
import Muster.Reduction
import Std.Data.TreeMap.Lemmas
import Std.Data.TreeSet.Lemmas

/-!
The search for coalition structures: ways to split agents into coalitions. Structures are tried by
number of coalitions, the one of all agents together first, until one is good enough. Coalitions
with the same pool have the same value, and structures with the same pools are tried only once.
There are many structures, so what has been valued and tried is kept in search trees.
-/

namespace Muster

/-- Something that values coalitions; being asked may change it. -/
class CoalitionOracle (ω : Type) where
  /-- The value of a coalition. -/
  value : ω → List Agent → Double × ω
  /-- The value of a structure, given those of its coalitions: by default, that of the weakest. -/
  structureValue : ω → List Double → Double × ω := fun o vs => ((reduce? Double.min vs).getD 0, o)

/-- A search under way. -/
structure CoalitionSearch (ω μ : Type) where
  agents : List Agent
  config : CoalitionConfig
  oracle : ω
  monitor : μ
  /-- The coalitions valued so far. -/
  values : Std.TreeMap Pool Double := ∅
  /-- The structures tried so far, each as its pools in order. -/
  tried : Std.TreeSet (List Pool) := ∅
  evaluated : Nat := 0
  best : Option (List (List Agent) × Double) := none
  statistics : SearchStatistics := {}
  ended : Option TerminationReason := none

namespace CoalitionSearch

variable {ω μ : Type}

/-- Tells the monitor what happened. -/
def tell [SearchMonitor μ] (s : CoalitionSearch ω μ) (event : SearchEvent) : CoalitionSearch ω μ :=
  { s with monitor := SearchMonitor.observe s.monitor event }

/-- Changes the counters. -/
def count (s : CoalitionSearch ω μ) (f : SearchStatistics → SearchStatistics) :
    CoalitionSearch ω μ := { s with statistics := f s.statistics }

/-- Ends the search. -/
def endWith (s : CoalitionSearch ω μ) (reason : TerminationReason) : CoalitionSearch ω μ :=
  { s with ended := some reason }

/-- Whether the search has ended. -/
def isEnded (s : CoalitionSearch ω μ) : Bool := s.ended.isSome

/-- The value of a coalition; the oracle is asked unless the value of its pool is known. -/
def valueOf [CoalitionOracle ω] (s : CoalitionSearch ω μ) (coalition : List Agent) :
    Double × CoalitionSearch ω μ :=
  let pool := Pool.ofAgents coalition
  match s.values[pool]? with
  | some v => (v, s.count .countCacheHit)
  | none =>
    let (v, oracle) := CoalitionOracle.value s.oracle coalition
    (v, { s.count .countEvaluation with oracle, values := s.values.insert pool v })

/-- The values of coalitions, one after the other. -/
def valuesOf [CoalitionOracle ω] (s : CoalitionSearch ω μ) :
    List (List Agent) → List Double × CoalitionSearch ω μ
  | [] => ([], s)
  | coalition :: rest =>
    let (v, s) := s.valueOf coalition
    let (vs, s) := s.valuesOf rest
    (v :: vs, s)

/-- Keeps a structure if it is better than the best so far. -/
def keepBest (s : CoalitionSearch ω μ) (coalitions : List (List Agent)) (value : Double) :
    CoalitionSearch ω μ :=
  if s.best.all fun b => b.2.lt value then { s with best := some (coalitions, value) } else s

/-- Ends the search if a value is good enough. -/
def checkThreshold [SearchMonitor μ] (s : CoalitionSearch ω μ) (value : Double) :
    CoalitionSearch ω μ :=
  if s.config.threshold ≤ value then
    ((s.count .countSolution).tell .solution).endWith .solutionLimitReached
  else s

/-- The outcome of a search: its best structure, if that is worth anything. -/
def outcome (s : CoalitionSearch ω μ) : CoalitionOutcome :=
  let (coalitions, value) := (s.best.filter fun b => (0 : Double).lt b.2).getD ([], 0)
  { coalitions, value, reason := s.ended.getD .searchSpaceExhausted, statistics := s.statistics }

/-- The pools of coalitions, in order: what makes structures alike. -/
def signature (coalitions : List (List Agent)) : List Pool :=
  sorted (coalitions.map Pool.ofAgents)

variable [CoalitionOracle ω] [SearchMonitor μ]

/-- Values a structure. -/
def evaluate (s : CoalitionSearch ω μ) (coalitions : List (List Agent)) : CoalitionSearch ω μ :=
  let (values, s) := { s with evaluated := s.evaluated + 1 }.valuesOf coalitions
  let (value, oracle) := CoalitionOracle.structureValue s.oracle values
  ({ s with oracle }.keepBest coalitions value).checkThreshold value

/-- Values a structure, unless one like it has been tried. -/
def consider (s : CoalitionSearch ω μ) (coalitions : List (List Agent)) : CoalitionSearch ω μ :=
  let s := s.count .countCandidate
  let key := signature coalitions
  if s.tried.contains key then s.count .countCacheHit
  else { s with tried := s.tried.insert key }.evaluate coalitions

/-- Takes up the structure that labels describe, unless the search has to end. -/
def visit (s : CoalitionSearch ω μ) (labels : List Nat) : CoalitionSearch ω μ :=
  let s := s.tell .step
  match SearchMonitor.command s.monitor with
  | .terminate reason => s.endWith (.aborted reason)
  | .proceed =>
    if s.config.maxStructures.any (· ≤ s.evaluated) then
      s.endWith (.aborted "structure limit reached")
    else s.consider (blocksOf s.agents labels)

/-- Goes through the structures of `k` coalitions. -/
def visitAll (s : CoalitionSearch ω μ) (k : Nat) : CoalitionSearch ω μ :=
  (PartitionCursor.start s.agents.length k).foldWith isEnded visit s

/-- Goes through the structures, those of fewer coalitions first. -/
def run (s : CoalitionSearch ω μ) : CoalitionSearch ω μ :=
  ((List.range' 1 s.agents.length).foldl visitAll (s.tell .enter)).tell .exit

end CoalitionSearch

/-- A solver that is used for one group of agents after another: its settings, and what its last
search valued and tried. -/
structure CoalitionSolver where
  config : CoalitionConfig := {}
  values : Std.TreeMap Pool Double := ∅
  tried : Std.TreeSet (List Pool) := ∅

namespace CoalitionSolver

/-- What a run of a solver leaves behind. -/
structure Run (ω μ : Type) where
  outcome : CoalitionOutcome
  solver : CoalitionSolver
  oracle : ω
  monitor : μ

/-- Forgets what the last search valued and tried. -/
def reset (s : CoalitionSolver) : CoalitionSolver := { s with values := ∅, tried := ∅ }

variable {ω μ : Type} [CoalitionOracle ω] [SearchMonitor μ]

/-- Searches under a monitor, with nothing known from the search before. -/
def solveWith (s : CoalitionSolver) (agents : List Agent) (oracle : ω) (monitor : μ) : Run ω μ :=
  let s := s.reset
  let search := CoalitionSearch.run {
    agents, config := s.config, oracle, monitor, values := s.values, tried := s.tried }
  { outcome := search.outcome
    solver := { s with values := search.values, tried := search.tried }
    oracle := search.oracle
    monitor := search.monitor }

/-- Searches within the limits of the settings. -/
def solve (s : CoalitionSolver) (clock : Clock) (agents : List Agent) (oracle : ω) :
    Run ω Monitor := s.solveWith agents oracle (s.config.monitor clock)

end CoalitionSolver
end Muster
