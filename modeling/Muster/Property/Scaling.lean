import Muster.Functionality.Error
import Muster.Property.Resource
import Muster.Property.Value

/-!
Scaling: how many times a pool has to be taken to meet the constraints of a resource. The factor is
the least whole one that lifts every property to its lower bound; it must not lift any above its
upper bound.
-/

namespace Muster.Pool

/-- A property of a pool, with its value and the bound that it has to meet. -/
structure Check where
  property : Model
  value : Double
  bound : ValueBound
deriving DecidableEq, Inhabited

/-- What a constrained property of a pool has to meet. -/
def check (o : Ontology) (r : Resource) (pool : Pool) (property : Model)
    (cs : List PropertyConstraint) : Except RequestError Check :=
  match pool.propertyValue o property with
  | none =>
    .error (.unsatisfiable r.model pool ("no value for property '" ++ property.id ++ "'"))
  | some value =>
    match ValueBound.merge property cs with
    | .error e => .error (.unsatisfiable r.model pool e.message)
    | .ok bound => .ok ⟨property, value, bound⟩

/-- Raises a factor until it lifts a property to its lower bound. -/
def raiseFactor (r : Resource) (pool : Pool) (factor : Double) (c : Check) :
    Except RequestError Double :=
  if factor * c.value < c.bound.min then
    if c.value ≤ 0 then
      .error (.unsatisfiable r.model pool ("'" ++ c.property.id ++ "' is " ++ c.value.text ++
        " and cannot reach " ++ c.bound.min.text))
    else .ok (factor.max (c.bound.min / c.value).ceil)
  else .ok factor

/-- Whether a property stays within its bound under a factor. -/
def confirm (r : Resource) (pool : Pool) (factor : Double) (c : Check) :
    Except RequestError Unit :=
  let scaled := factor * c.value
  if c.bound.contains scaled then .ok ()
  else
    .error (.unsatisfiable r.model pool ("'" ++ c.property.id ++ "' scaled by " ++ factor.text ++
      " is " ++ scaled.text ++ ", outside " ++ c.bound.text))

/-- Collects the checks of all constrained properties while the factor is raised for each. -/
def gather (o : Ontology) (r : Resource) (pool : Pool) (state : Double × List Check)
    (cluster : Model × List PropertyConstraint) : Except RequestError (Double × List Check) := do
  let c ← pool.check o r cluster.1 cluster.2
  let factor ← raiseFactor r pool state.1 c
  return (factor, state.2 ++ [c])

/-- The factor that makes a pool meet the constraints of a resource. -/
def scalingFactor (o : Ontology) (r : Resource) (pool : Pool) : Except RequestError Double := do
  let (factor, checks) ← r.clusters.foldlM (gather o r pool) (1, [])
  checks.forM (confirm r pool factor)
  return factor

/-- The factors of the pools of a set, zero for those that have none. -/
def scalingFactors (o : Ontology) (r : Resource) (pools : PoolSet) : List Double :=
  pools.toList.map fun pool => (scalingFactor o r pool).toOption.getD 0

end Muster.Pool
