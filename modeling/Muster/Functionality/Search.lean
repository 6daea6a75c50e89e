import Muster.Functionality.Mapping
import Muster.Pool.Enumeration
import Muster.Support.Minimal
import Muster.Support.Saturation
import Muster.Wiring.Feasibility

/-!
Finding the pools that serve functionalities. All pools within the given one are tried; or, with
saturation bounds, only minimal pools within what each functionality can use, and of these only
pools whose atoms can be wired.
-/

namespace Muster

/-- How to look for pools. -/
structure MappingConfig where
  useSaturation : Bool := true
  checkWiring : Bool := true
  combinationLimit : Option Nat := none
  timeLimit : Option Duration := none
  wiring : WiringConfig := {}
deriving DecidableEq, Inhabited

namespace MappingConfig

def withTimeLimit (c : MappingConfig) (d : Duration) : MappingConfig :=
  { c with timeLimit := d.asLimit }

def withWiringTimeout (c : MappingConfig) (d : Duration) : MappingConfig :=
  { c with wiring := c.wiring.withTimeout d }

/-- The text of a configuration. -/
def text (c : MappingConfig) : String :=
  "MappingConfig(saturation bound: " ++ toString c.useSaturation ++ ", connectivity check: " ++
    toString c.checkWiring ++ ", combination limit: " ++
    (match c.combinationLimit with
      | some n => toString n
      | none => "none") ++
    ", time limit: " ++ Duration.limitText c.timeLimit ++ ")"

/-- The pools within a bound, as many as the configuration allows. -/
def combinations (c : MappingConfig) (bound : Pool) : Enumeration :=
  let all := Enumeration.within bound bound.totalAtoms .max
  match c.combinationLimit with
  | some limit => all.withLimit limit
  | none => all

/-- The time limit of a search. -/
def timer (c : MappingConfig) (clock : Clock) : Option TimeLimit :=
  c.timeLimit.map fun limit => { clock, limit, mask := 0 }

end MappingConfig

/-- Goes through the pools of an enumeration, at most `fuel` of them, until one fails. -/
def Enumeration.foldUntil {σ ε : Type} (f : σ → Pool → Except ε σ) :
    Nat → Enumeration → σ → Except ε σ
  | 0, _, s => .ok s
  | fuel + 1, e, s =>
    match e.next? with
    | none => .ok s
    | some (p, rest) =>
      match f s p with
      | .error err => .error err
      | .ok s => foldUntil f fuel rest s

/-- Goes through all pools that are left. -/
def Enumeration.foldAll {σ ε : Type} (e : Enumeration) (f : σ → Pool → Except ε σ) (s : σ) :
    Except ε σ := foldUntil f (settings e.wheels) e s

/-- A search for pools under way. -/
structure MappingSearch where
  ontology : Ontology
  config : MappingConfig
  clock : Clock
  timer : Option TimeLimit
  mapping : FunctionalityMapping

namespace MappingSearch

/-- Counts a step, unless the time is up. -/
def checkTime (s : MappingSearch) : Except RequestError MappingSearch :=
  match s.timer with
  | none => .ok s
  | some t =>
    let t := t.observe .step
    if t.command.isTerminate then .error (.timeout t.elapsed) else .ok { s with timer := some t }

/-- Changes the mapping. -/
def update (s : MappingSearch) (f : FunctionalityMapping → FunctionalityMapping) :
    MappingSearch := { s with mapping := f s.mapping }

/-- Takes up a pool. -/
def candidate (s : MappingSearch) : Except RequestError MappingSearch :=
  return (← s.checkTime).update (·.tallied .countCandidate)

/-- Notes that a pool serves a functionality. -/
def found (s : MappingSearch) (p : Pool) (f : Model) : MappingSearch :=
  s.update fun m => (m.tallied .countSolution).add p f

/-- Tries a pool for one functionality: it counts if it is minimal and can be wired. -/
def tryMinimal (f : Model) (s : MappingSearch) (p : Pool) : Except RequestError MappingSearch := do
  let s := (← s.candidate).update (·.tallied .countEvaluation)
  if !(← p.isMinimal s.ontology [f]) then return s
  if s.config.checkWiring && !p.isWirable s.ontology s.config.wiring s.clock then return s
  return s.found p f

/-- Looks for the pools of one functionality within a bounded pool. -/
def searchBounded (base bounded : Pool) (s : MappingSearch) (f : Model) :
    Except RequestError MappingSearch := do
  let limits ← Resource.saturationBound s.ontology base ⟨f, []⟩
  let within := bounded.min limits
  if within.isNull then return s
  (s.config.combinations within).foldAll (tryMinimal f) s

/-- Tries a pool for one functionality: it counts if it serves it. -/
def tryServing (p : Pool) (s : MappingSearch) (f : Model) : Except RequestError MappingSearch := do
  let s := s.update (·.tallied .countEvaluation)
  return if ← p.isSupporting s.ontology [f] then s.found p f else s

/-- Tries a pool for all functionalities. -/
def tryAll (fs : List Model) (s : MappingSearch) (p : Pool) :
    Except RequestError MappingSearch := do
  fs.foldlM (tryServing p) (← s.candidate)

end MappingSearch

namespace Pool

/-- The search for pools within `pool`, before its first step. -/
def mappingSearch (o : Ontology) (c : MappingConfig) (clock : Clock) (pool : Pool)
    (fs : List Model) (bound : Pool) : MappingSearch where
  ontology := o
  config := c
  clock := clock
  timer := c.timer clock
  mapping := { pool, functionalities := fs, bound }

/-- The minimal pools that serve each functionality, within what the functionalities can use. -/
def minimalMapping (o : Ontology) (c : MappingConfig) (clock : Clock) (pool : Pool)
    (fs : List Model) : Except RequestError FunctionalityMapping := do
  let limits ← pool.saturationBound o (fs.map fun f => ⟨f, []⟩)
  let bounded := pool.min limits
  let start := mappingSearch o c clock pool fs bounded
  if bounded.isNull then return start.mapping
  return (← fs.foldlM (MappingSearch.searchBounded pool bounded) start).mapping

/-- All pools that serve each functionality. -/
def fullMapping (o : Ontology) (c : MappingConfig) (clock : Clock) (pool : Pool)
    (fs : List Model) : Except RequestError FunctionalityMapping := do
  let start := mappingSearch o c clock pool fs pool
  return (← (c.combinations pool).foldAll (MappingSearch.tryAll fs) start).mapping

/-- The pools within `pool` that serve each functionality, or with `useSaturation` the minimal ones
among them. -/
def functionalityMapping (o : Ontology) (c : MappingConfig) (clock : Clock) (pool : Pool)
    (fs : List Model) (useSaturation : Bool) : Except RequestError FunctionalityMapping :=
  if pool.isEmpty then .error (.invalidArgument "model pool is empty" pool fs)
  else if fs.isEmpty then .error (.invalidArgument "no functionalities given" pool fs)
  else if useSaturation then minimalMapping o c clock pool fs
  else fullMapping o c clock pool fs

end Pool

/-- The entries of a pool whose models are strict subclasses of `parent`. -/
def Pool.subclassesOnly (o : Ontology) (parent : Model) (pool : Pool) : Pool :=
  pool.restrict fun m => o.isSubclassOf m parent

end Muster
