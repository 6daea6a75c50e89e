import Muster.Coalition.Search

/-!
An oracle that reads the values of coalitions off a table.
-/

namespace Muster

/-- How the values of coalitions make that of their structure. -/
inductive StructureFold where
  | weakest
  | sum
  | average
  | first
deriving DecidableEq, Inhabited

/-- The value of a structure. -/
def StructureFold.apply (fold : StructureFold) (values : List Double) : Double :=
  let total := values.foldl (· + ·) 0
  match fold with
  | .weakest => (reduce? Double.min values).getD 0
  | .sum => total
  | .average => total / .ofNat values.length
  | .first => values.headD 0

/-- Values for some pools and, failing these, for the sizes of coalitions from one on. `asked` keeps
the pools that were asked for, the last one first. -/
structure ValueTable where
  pools : List (Pool × Double)
  sizes : List Double
  fallback : Double
  fold : StructureFold
  asked : List Pool := []
deriving DecidableEq, Inhabited

/-- The value of a coalition. -/
def ValueTable.valueOf (t : ValueTable) (coalition : List Agent) : Double :=
  ((t.pools.lookup (.ofAgents coalition)).or (t.sizes[coalition.length - 1]?)).getD t.fallback

instance : CoalitionOracle ValueTable where
  value t coalition :=
    (t.valueOf coalition, { t with asked := .ofAgents coalition :: t.asked })
  structureValue t values := (t.fold.apply values, t)

end Muster
