import Muster.Wiring.Search

/-!
Whether the atoms of a pool can be wired so that they all hang together.
-/

namespace Muster

/-- How to search for wirings. -/
structure WiringConfig where
  timeout : Option Duration := none
  minFeasible : Nat := 1
  seed : UInt64 := 0
  interfaceBase : Model := Vocabulary.electroMechanicalInterface
  branching : Branching := .merit
  progress : Option Duration := none
deriving DecidableEq, Inhabited

namespace WiringConfig

def withTimeout (c : WiringConfig) (d : Duration) : WiringConfig :=
  { c with timeout := d.asLimit }

def withMinFeasible (c : WiringConfig) (n : Nat) : WiringConfig :=
  { c with minFeasible := if n = 0 then 1 else n }

def withProgress (c : WiringConfig) (d : Duration) : WiringConfig :=
  { c with progress := d.asLimit }

/-- The text of a configuration. -/
def text (c : WiringConfig) : String :=
  "ConnectivityConfig(timeout: " ++ Duration.limitText c.timeout ++ ", min_feasible: " ++
    toString c.minFeasible ++ ", seed: " ++ toString c.seed ++ ", interface base: " ++
    c.interfaceBase.fragment ++ ", branching: " ++ c.branching.text ++ ")"

/-- How often progress is reported, in nodes. -/
def progressMask : UInt64 := 4095

/-- The monitors that a configuration asks for. -/
def monitors (c : WiringConfig) (clock : Clock) : WiringComposite WiringMonitor :=
  let timeLimit := c.timeout.toList.map fun limit =>
    .plain (.timeLimit { clock, limit, mask := TimeLimit.defaultMask })
  ⟨timeLimit ++ c.progress.toList.map fun interval => .log interval progressMask⟩

end WiringConfig

namespace WiringProblem

/-- Searches a problem as configured. -/
def solve (p : WiringProblem) (c : WiringConfig) (clock : Clock) : WiringOutcome :=
  ((({} : WiringSolver).withLimit c.minFeasible).solve p (.start c.seed c.branching)
    (c.monitors clock)).outcome

end WiringProblem

namespace Pool

/-- Searches for a wiring of the atoms of a pool. -/
def wire (pool : Pool) (o : Ontology) (c : WiringConfig) (clock : Clock) : WiringOutcome :=
  (WiringProblem.ofPool o pool c.interfaceBase).solve c clock

/-- Whether a wiring of the atoms was found. -/
def isWirable (pool : Pool) (o : Ontology) (c : WiringConfig) (clock : Clock) : Bool :=
  (pool.wire o c clock).isFeasible

/-- The wiring of the atoms that was found. -/
def wiring? (pool : Pool) (o : Ontology) (c : WiringConfig) (clock : Clock) :
    Option ConnectionGraph := (pool.wire o c clock).result.graph?

end Pool
end Muster
