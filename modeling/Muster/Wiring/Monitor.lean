import Muster.Search.Monitor
import Muster.Wiring.Graph
import Muster.Wiring.Statistics

/-!
Monitors of a wiring search. They see the wiring under construction and the counters, and may stop
the search as any monitor may.
-/

namespace Muster

/-- What happens in a wiring search. -/
inductive WiringEvent where
  | enter (p : WiringProblem)
  | exit
  | step (w : PartialWiring)
  | prune (w : PartialWiring) (reason : PruneReason)
  | enqueue (w : PartialWiring) (count : Nat)
  | descend (w : PartialWiring) (c : Choice)
  | backtrack (w : PartialWiring)
  | solution (g : ConnectionGraph)

/-- Something that watches a wiring search; to be asked may change it. -/
class WiringObserver (μ : Type) where
  name : μ → String
  observe : μ → WiringEvent → WiringStatistics → μ
  command : μ → PartialWiring → WiringStatistics → SearchCommand × μ

/-- The event that a monitor of any search sees. -/
def WiringEvent.plain : WiringEvent → Option SearchEvent
  | enter _ => some .enter
  | exit => some .exit
  | step _ => some .step
  | solution _ => some .solution
  | _ => none

/-- The text of an event with the counters it comes with; steps have none. -/
def WiringEvent.text (s : WiringStatistics) : WiringEvent → Option String
  | enter p => some ("enter " ++ p.text ++ " nodes " ++ toString s.nodes)
  | exit => some ("exit nodes " ++ toString s.nodes ++ " backtracks " ++ toString s.backtracks)
  | step _ => none
  | prune w reason => some ("prune " ++ reason.text ++ " " ++ w.text)
  | enqueue _ count => some ("enqueue " ++ toString count)
  | descend w c => some ("descend " ++ c.text ++ " " ++ w.text ++ " depth " ++ toString s.maxDepth)
  | backtrack w => some ("backtrack " ++ toString s.backtracks ++ " " ++ w.text)
  | solution g => some ("solution " ++ toString s.solutions ++ " " ++ g.text)

/-- The wiring monitors of this library. -/
inductive WiringMonitor where
  /-- Does nothing. -/
  | silent
  /-- Reports progress; the clock is read at nodes whose number has no bit in common with `mask`. -/
  | log (interval : Duration) (mask : UInt64)
  /-- Keeps the texts of the first events, the last one first. -/
  | trace (room : Nat) (events : List String)
  /-- A monitor of any search. -/
  | plain (m : Monitor)

namespace WiringMonitor

/-- The monitor that reports progress every second. -/
def defaultLog : WiringMonitor := log (.ofSeconds 1) 4095

/-- The name of a monitor. -/
def name : WiringMonitor → String
  | silent => "NoOperationMonitor"
  | log _ _ => "LogTreeSearchMonitor"
  | trace _ _ => "Trace"
  | plain m => "WrapperMonitor(" ++ m.name ++ ")"

/-- The name of a monitor, with its settings if it reports progress. -/
def settingsText : WiringMonitor → String
  | log interval mask =>
    "LogTreeSearchMonitor(log_interval: " ++ toString interval.wholeSeconds ++
      "s, clock_check_mask: " ++ toString mask ++ ")"
  | m => m.name

/-- The text of a monitor. -/
def text (m : WiringMonitor) : String := "TreeSearchMonitor(" ++ m.name ++ ")"

/-- Takes notice of an event. -/
def observe (m : WiringMonitor) (event : WiringEvent) (s : WiringStatistics) : WiringMonitor :=
  match m with
  | trace (room + 1) events =>
    match event.text s with
    | some t => trace room (t :: events)
    | none => m
  | plain inner =>
    match event.plain with
    | some e => plain (inner.observe e)
    | none => m
  | _ => m

/-- The answer of a monitor. -/
def command : WiringMonitor → SearchCommand
  | plain m => m.command
  | _ => .proceed

/-- The events that were kept, in order. -/
def events : WiringMonitor → List String
  | trace _ events => events.reverse
  | _ => []

instance : WiringObserver WiringMonitor where
  name := name
  observe := observe
  command m _ _ := (m.command, m)

end WiringMonitor

/-- Several monitors as one. -/
structure WiringComposite (μ : Type) where
  members : List μ
deriving Inhabited

namespace WiringComposite

variable {μ : Type} [WiringObserver μ]

/-- Asks one member after the other until one stops the search. -/
def ask (w : PartialWiring) (s : WiringStatistics) : List μ → SearchCommand × List μ
  | [] => (.proceed, [])
  | m :: rest =>
    let (c, m) := WiringObserver.command m w s
    if c.isTerminate then (c, m :: rest)
    else
      let (d, rest) := ask w s rest
      (d, m :: rest)

instance : WiringObserver (WiringComposite μ) where
  name _ := "CompositeTreeSearchMonitor"
  observe c event s := ⟨c.members.map fun m => WiringObserver.observe m event s⟩
  command c w s :=
    let (d, members) := ask w s c.members
    (d, ⟨members⟩)

/-- The text of a composite: the texts of its members. -/
def text (c : WiringComposite WiringMonitor) : String :=
  "[" ++ ", ".intercalate (c.members.map WiringMonitor.text) ++ "]"

end WiringComposite
end Muster
