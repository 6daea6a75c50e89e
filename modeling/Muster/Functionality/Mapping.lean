import Muster.Pool.Basic
import Muster.Search.Statistics

/-!
Functionality mappings: which pools serve which functionality.
-/

namespace Muster

/-- The pools that serve each of some functionalities. `bound` limits the pools that were looked
at. Pools are kept normalized, by functionality and the other way round. -/
structure FunctionalityMapping where
  pool : Pool
  functionalities : List Model
  bound : Pool
  byFunctionality : OrderedMap Model PoolSet := .empty
  byPool : OrderedMap Pool (OrderedSet Model) := .empty
  /-- The functionalities that some pool serves. -/
  supported : OrderedSet Model := .empty
  statistics : SearchStatistics := {}
deriving DecidableEq, Inhabited

namespace FunctionalityMapping

/-- The pools that serve a functionality. -/
def poolsOf (m : FunctionalityMapping) (f : Model) : PoolSet :=
  (m.byFunctionality.get? f).getD .empty

/-- The functionalities that a pool serves. -/
def functionalitiesOf (m : FunctionalityMapping) (p : Pool) : OrderedSet Model :=
  (m.byPool.get? p.normalized).getD .empty

/-- Notes that a pool serves a functionality. -/
def add (m : FunctionalityMapping) (p : Pool) (f : Model) : FunctionalityMapping :=
  { m with
    byFunctionality := m.byFunctionality.insert f ((m.poolsOf f).insert p.normalized)
    byPool := m.byPool.insert p.normalized ((m.functionalitiesOf p).insert f)
    supported := m.supported.insert f }

/-- Notes that a pool serves several functionalities. -/
def addAll (m : FunctionalityMapping) (p : Pool) (fs : List Model) : FunctionalityMapping :=
  fs.foldl (fun m f => m.add p f) m

/-- Whether some pool serves a functionality. -/
def isSupported (m : FunctionalityMapping) (f : Model) : Bool := decide (f ∈ m.supported)

/-- The number of pools that serve something. -/
def poolCount (m : FunctionalityMapping) : Nat := m.byPool.size

/-- Whether no pool serves anything. -/
def isEmpty (m : FunctionalityMapping) : Bool := m.supported.isEmpty

/-- Changes the counters. -/
def tallied (m : FunctionalityMapping) (f : SearchStatistics → SearchStatistics) :
    FunctionalityMapping := { m with statistics := f m.statistics }

/-- The lines of one functionality. -/
def linesOf (m : FunctionalityMapping) (f : Model) : List String :=
  if (m.poolsOf f).isEmpty then ["    " ++ f.fragment ++ ": unsupported"]
  else ("    " ++ f.fragment ++ ":") :: (m.poolsOf f).toList.map fun p => "        " ++ p.text

/-- The text of a mapping, line by line. -/
def text (m : FunctionalityMapping) : String :=
  String.join (([
    "FunctionalityMapping:",
    "    model pool: " ++ m.pool.text,
    "    saturation bound: " ++ m.bound.text] ++
    m.functionalities.flatMap m.linesOf).map (· ++ "\n"))

end FunctionalityMapping
end Muster
