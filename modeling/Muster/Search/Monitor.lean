import Muster.Duration
import Muster.Text.Quoted

/-!
Monitors watch a search and may stop it. A search tells its monitor what happens and asks it
between steps whether to go on; the first monitor of a composite that says no decides.
-/

namespace Muster

/-- What a monitor answers. -/
inductive SearchCommand where
  | proceed
  | terminate (reason : String)
deriving DecidableEq, Inhabited

namespace SearchCommand

/-- Whether the search has to stop. -/
def isTerminate : SearchCommand → Bool
  | proceed => false
  | terminate _ => true

/-- The text of a command. -/
def text : SearchCommand → String
  | proceed => "Continue"
  | terminate reason => "Terminate: " ++ reason

/-- The first command of a list that stops the search, if there is one. -/
def firstTerminate : List SearchCommand → SearchCommand
  | [] => proceed
  | c :: rest => if c.isTerminate then c else firstTerminate rest

end SearchCommand

/-- What happens in a search. -/
inductive SearchEvent where
  | enter
  | exit
  | step
  | solution
deriving DecidableEq, Inhabited

/-- Something that watches a search. -/
class SearchMonitor (σ : Type) where
  name : σ → String
  observe : σ → SearchEvent → σ
  command : σ → SearchCommand

/-- A clock, given by the time it shows after each number of steps of the search it is read in. -/
structure Clock where
  elapsed : Nat → Duration

/-- Stops a search after some time. The clock is read only after steps whose number has no bit in
common with `mask`. -/
structure TimeLimit where
  clock : Clock
  limit : Duration
  mask : UInt64
  steps : UInt64 := 0

namespace TimeLimit

/-- The mask that reads the clock every 16384 steps. -/
def defaultMask : UInt64 := 0x3FFF

/-- The time that has passed. -/
def elapsed (t : TimeLimit) : Duration := t.clock.elapsed t.steps.toNat

/-- Whether the time is up. -/
def isExpired (t : TimeLimit) : Bool := decide (t.limit.nanoseconds ≤ t.elapsed.nanoseconds)

/-- The time that is left. -/
def remaining (t : TimeLimit) : Duration := ⟨t.limit.nanoseconds - t.elapsed.nanoseconds⟩

/-- Counts steps, anew for each search. -/
def observe (t : TimeLimit) : SearchEvent → TimeLimit
  | .enter => { t with steps := 0 }
  | .step => { t with steps := t.steps + 1 }
  | _ => t

/-- Reads the clock if it is due. -/
def command (t : TimeLimit) : SearchCommand :=
  if t.steps &&& t.mask = 0 ∧ t.isExpired then .terminate "time limit reached" else .proceed

end TimeLimit

/-- Stops a search after a number of steps or of solutions. -/
structure Quota where
  name : String
  maxSteps : Option Nat := none
  maxSolutions : Option Nat := none
  steps : Nat := 0
  solutions : Nat := 0
deriving DecidableEq, Inhabited

namespace Quota

/-- Counts steps and solutions, anew for each search. -/
def observe (q : Quota) : SearchEvent → Quota
  | .enter => { q with steps := 0, solutions := 0 }
  | .step => { q with steps := q.steps + 1 }
  | .solution => { q with solutions := q.solutions + 1 }
  | .exit => q

/-- Whether a number has been reached. -/
def reached (limit : Option Nat) (n : Nat) : Bool := limit.any (· ≤ n)

/-- Stops once a number has been reached. -/
def command (q : Quota) : SearchCommand :=
  if reached q.maxSteps q.steps || reached q.maxSolutions q.solutions then
    .terminate (q.name ++ " stop")
  else .proceed

end Quota

/-- The monitors of this library. -/
inductive Monitor where
  | timeLimit (t : TimeLimit)
  /-- Stops the search once a flag is raised. -/
  | interrupt (raised : Bool)
  | quota (q : Quota)
  /-- Only watches. -/
  | quiet
  | composite (ms : List Monitor)

namespace Monitor

/-- The name of a monitor. -/
def name : Monitor → String
  | timeLimit _ => "TimeLimitMonitor"
  | interrupt _ => "InterruptMonitor"
  | quota q => q.name
  | quiet => "Quiet"
  | composite _ => "CompositeMonitor"

/-- Passes an event on. -/
def observe (event : SearchEvent) : Monitor → Monitor
  | timeLimit t => timeLimit (t.observe event)
  | quota q => quota (q.observe event)
  | composite ms => composite (ms.map (observe event))
  | m => m

/-- The answer of a monitor. -/
def command : Monitor → SearchCommand
  | timeLimit t => t.command
  | interrupt raised => if raised then .terminate "interrupt signal received" else .proceed
  | quota q => q.command
  | quiet => .proceed
  | composite ms => .firstTerminate (ms.map command)

/-- Raises or lowers the flag of every interrupt. -/
def signal (raised : Bool) : Monitor → Monitor
  | interrupt _ => interrupt raised
  | composite ms => composite (ms.map (signal raised))
  | m => m

instance : SearchMonitor Monitor where
  name := name
  observe m event := m.observe event
  command := command

/-- The monitors inside a composite. -/
def members : Monitor → List Monitor
  | composite ms => ms
  | _ => []

/-- The text of a monitor. -/
def text (m : Monitor) : String := "SearchMonitor(" ++ m.name ++ ")"

/-- The names of the members, separated by commas. -/
def memberNames (m : Monitor) : String := ", ".intercalate (m.members.map name)

/-- The text of a composite with its members. -/
def membersText (m : Monitor) : String := m.name ++ "([" ++ memberNames m ++ "])"

/-- The text of a composite as a record. -/
def recordText (m : Monitor) : String :=
  m.name ++ " \x7b monitors: " ++ quoted m.memberNames ++ " \x7d"

end Monitor
end Muster
