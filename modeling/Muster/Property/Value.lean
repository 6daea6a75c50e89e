import Muster.Double.Arithmetic
import Muster.Ontology
import Muster.Reduction
import Muster.Vocabulary

/-!
The data properties of pools, put together from those of the models.
-/

namespace Muster

/-- How the values of several models make one. -/
inductive Aggregation where
  /-- Values add up over all instances. -/
  | sum
  | min
  | max
deriving DecidableEq, Inhabited

/-- The word for an aggregation. -/
def Aggregation.text : Aggregation → String
  | sum => "Sum"
  | min => "Min"
  | max => "Max"

namespace Pool

/-- The values that the models of a pool have for a property, with the numbers of instances. -/
def ownValues (o : Ontology) (property : Model) (pool : Pool) : List (Double × UInt32) :=
  pool.normalized.entries.filterMap fun e => (o.dataValue e.1 property).map fun v => (v, e.2)

/-- The value of a property, if some model of the pool has one. -/
def dataValue (o : Ontology) (property : Model) (how : Aggregation) (pool : Pool) :
    Option Double :=
  let values := pool.ownValues o property
  match how with
  | .sum =>
    if values.isEmpty then none
    else some (values.foldl (fun sum e => sum + e.1 * .ofNat e.2.toNat) 0)
  | .min => reduce? Double.min (values.map Prod.fst)
  | .max => reduce? Double.max (values.map Prod.fst)

/-- The payload slots that some instances of a model offer, as restrictions state them. They are
counted in 64 bits, so the number is exact below `2 ^ 64` and starts again at zero there. -/
def slotsOf (restrictions : List CardinalityRestriction) (count : UInt32) : UInt64 :=
  (BoundMap.ofRestrictions restrictions).values.foldl (fun slots b => slots + b.max.toUInt64) 0 *
    count.toUInt64

/-- The payload slots of the entries that state them. -/
def slots (o : Ontology) (pool : Pool) : List UInt64 :=
  pool.normalized.entries.filterMap fun e =>
    let restrictions := o.restrictions e.1 Vocabulary.hasTransportCapacity
    if restrictions.isEmpty then none else some (slotsOf restrictions e.2)

/-- The payload slots that a pool offers, if some model of it states them. -/
def transportCapacity (o : Ontology) (pool : Pool) : Option Double :=
  if (pool.slots o).isEmpty then none
  else some (.ofNat ((pool.slots o).foldl (· + ·) 0).toNat)

/-- The summed value of a property, or else the payload slots. -/
def propertyValue (o : Ontology) (property : Model) (pool : Pool) : Option Double :=
  (pool.dataValue o property .sum).or (pool.transportCapacity o)

end Pool
end Muster
