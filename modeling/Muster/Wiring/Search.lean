import Muster.Wiring.Brancher
import Muster.Wiring.ChoiceStack
import Muster.Wiring.Monitor
import Muster.Wiring.Outcome
import Muster.Wiring.Trail

/-!
The search for connected wirings, depth first. At each node the open endpoint that the brancher
picks is wired or left unconnected; a wiring that links all instances is a solution, and a partial
wiring that cannot be completed is left at once. A choice stays on the trail until its level is
left.
-/

namespace Muster

/-- A search under way. `marks` are those that looking for prune reasons has left. -/
structure WiringSearch (μ : Type) where
  problem : WiringProblem
  limit : Nat
  wiring : PartialWiring
  trail : Trail
  stack : ChoiceStack
  marks : Array Bool := #[]
  brancher : Brancher
  monitor : μ
  first : Option ConnectionGraph := none
  solutions : Nat := 0
  statistics : WiringStatistics := {}

namespace WiringSearch

variable {μ : Type} [WiringObserver μ]

/-- Tells the monitor what happened. -/
def tell (s : WiringSearch μ) (event : WiringEvent) : WiringSearch μ :=
  { s with monitor := WiringObserver.observe s.monitor event s.statistics }

/-- Changes the counters. -/
def count (s : WiringSearch μ) (f : WiringStatistics → WiringStatistics) : WiringSearch μ :=
  { s with statistics := f s.statistics }

/-- Notes the wiring as a solution; the first one is kept. -/
def noteSolution (s : WiringSearch μ) : WiringSearch μ :=
  let g := ConnectionGraph.ofWiring s.problem s.wiring
  let s := { s with solutions := s.solutions + 1 }
  let s := (s.count .countSolution).tell (.solution g)
  { s with first := s.first.or (some g) }

/-- Notes that the wiring cannot be completed. -/
def notePruned (s : WiringSearch μ) (reason : PruneReason) : WiringSearch μ :=
  (s.count (·.countPruned reason)).tell (.prune s.wiring reason)

/-- Looks for a reason why the wiring cannot be completed. -/
def inspect (s : WiringSearch μ) : Option PruneReason × WiringSearch μ :=
  let (reason, marks) := s.wiring.propagate s.problem s.marks
  (reason, { s with marks })

/-- Puts the choices of the brancher on the last level. -/
def enqueue (s : WiringSearch μ) : WiringSearch μ :=
  let (choices, brancher) := s.brancher.branch s.problem s.wiring
  let (added, stack) := s.stack.offer choices
  { s with brancher, stack }.tell (.enqueue s.wiring added)

/-- Leaves the last level and takes back what was chosen to get there. -/
def goBack (s : WiringSearch μ) : WiringSearch μ :=
  let s := (s.count .countBacktrack).tell (.backtrack s.wiring)
  let (trail, wiring) := s.trail.backtrack s.wiring
  { s with trail, wiring, stack := s.stack.popLevel.2 }

/-- Makes a choice and looks at the wiring it leads to. -/
def descend (s : WiringSearch μ) (c : Choice) : WiringSearch μ :=
  let (trail, wiring) := s.trail.pushFrame.apply s.problem s.wiring c
  let s := { s with trail, wiring, stack := s.stack.pushLevel }
  let s := (s.count fun n => n.countNode.noteDepth s.stack.depth).tell (.descend s.wiring c)
  if s.wiring.isConnected then s.noteSolution
  else
    match s.inspect with
    | (some reason, s) => (s.notePruned reason).goBack
    | (none, s) => s.enqueue

/-- Tries the next choice of the last level. -/
def tryNext (s : WiringSearch μ) : WiringSearch μ :=
  match s.stack.next with
  | (none, _) => s
  | (some c, stack) => ({ s with stack }.count .countDecision).descend c

/-- Looks at the wiring without wires. The answer says whether there is anything to search. -/
def begin (s : WiringSearch μ) : Bool × WiringSearch μ :=
  let s := (s.tell (.enter s.problem)).count .countNode
  if s.wiring.isConnected then (false, s.noteSolution)
  else
    match s.inspect with
    | (some reason, s) => (false, s.notePruned reason)
    | (none, s) =>
      (true, { s with trail := s.trail.pushFrame, stack := s.stack.pushLevel }.enqueue)

/-- What a step leads to. -/
inductive Progress (μ : Type) where
  | running (s : WiringSearch μ)
  | ended (reason : TerminationReason) (s : WiringSearch μ)

/-- One step: unless the monitor stops the search, leaves an exhausted level or tries a choice. -/
def step (s : WiringSearch μ) : Progress μ :=
  let s := s.tell (.step s.wiring)
  match WiringObserver.command s.monitor s.wiring s.statistics with
  | (.terminate reason, monitor) => .ended (.aborted reason) { s with monitor }
  | (.proceed, monitor) =>
    let s := { s with monitor }
    if s.stack.isExhausted then
      if s.stack.depth ≤ 1 then .ended .searchSpaceExhausted s else .running s.goBack
    else
      let s := s.tryNext
      if s.limit ≤ s.solutions then .ended .solutionLimitReached s else .running s

/-- Steps until the search ends, at most `fuel` times. -/
def loop : Nat → WiringSearch μ → TerminationReason × WiringSearch μ
  | 0, s => (.searchSpaceExhausted, s)
  | fuel + 1, s =>
    match s.step with
    | .ended reason s => (reason, s)
    | .running s => loop fuel s

/-- More than the steps of any search of a problem. A level decides an endpoint, so there are at
most as many levels below the first as endpoints, each with one choice more than endpoints at most;
each choice takes one step to try and one to leave. -/
def stepBound (p : WiringProblem) : Nat := 2 * Nat.pow (p.endpointCount + 2) (p.endpointCount + 2)

/-- The outcome of a search that has ended. -/
def outcome (reason : TerminationReason) (s : WiringSearch μ) : WiringOutcome :=
  match reason, s.first with
  | .aborted message, first => .aborted first message s.statistics
  | reason, some g => .feasible g reason s.statistics
  | _, none => .infeasible s.statistics

/-- Searches to the end. -/
def run (s : WiringSearch μ) : WiringOutcome × WiringSearch μ :=
  let (searching, s) := s.begin
  let (reason, s) := if searching then loop (stepBound s.problem) s else (.searchSpaceExhausted, s)
  let s := s.tell .exit
  (s.outcome reason, s)

end WiringSearch

/-- A solver that is used for one problem after another: its trail, its stack and its marks, and the
number of solutions after which a search stops. -/
structure WiringSolver where
  trail : Trail := {}
  stack : ChoiceStack := {}
  marks : Array Bool := #[]
  limit : Nat := 1
deriving DecidableEq, Inhabited

namespace WiringSolver

/-- Lets searches stop after `limit` solutions, or after one if `limit` is zero. -/
def withLimit (s : WiringSolver) (limit : Nat) : WiringSolver :=
  { s with limit := if limit = 0 then 1 else limit }

/-- What a run of a solver leaves behind. -/
structure Run (μ : Type) where
  outcome : WiringOutcome
  solver : WiringSolver
  brancher : Brancher
  monitor : μ

/-- Clears the trail and the stack. The marks stay. -/
def reset (s : WiringSolver) : WiringSolver := { s with trail := {}, stack := {} }

/-- Searches a problem, then clears the trail and the stack, however far the search has come. -/
def solve {μ : Type} [WiringObserver μ] (s : WiringSolver) (p : WiringProblem) (b : Brancher)
    (monitor : μ) : Run μ :=
  let (outcome, search) := WiringSearch.run {
    problem := p, limit := s.limit, wiring := .ofProblem p, trail := s.trail, stack := s.stack,
    marks := s.marks, brancher := b, monitor }
  let left : WiringSolver := { s with
    trail := search.trail, stack := search.stack, marks := search.marks }
  { outcome, solver := left.reset, brancher := search.brancher, monitor := search.monitor }

end WiringSolver
end Muster
