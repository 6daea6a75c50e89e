import Muster.Pool.Algebra
import Muster.Property.Scaling
import Muster.Support.Pool

/-!
Saturation bounds: how many instances of a model can contribute to a functionality at all. Beyond
the largest ratio of a need to the offer of one instance, more instances change nothing.
-/

namespace Muster

/-- The need of one model, or one unit of itself if it needs nothing. -/
def SupportVector.ownNeed (o : Ontology) (m : Model) : Except RequestError SupportVector := do
  let required ← SupportVector.requirement o [m]
  return if required.isNull then .ofPairs [(m, 1)] else required

/-- How many instances of `provider` a model can use. -/
def saturationOf (o : Ontology) (required provider : Model) : Except RequestError UInt32 := do
  let need ← SupportVector.ownNeed o required
  let offer ← (SupportVector.ofModels o [provider] need.labels true).mapError .model
  let ratios := (need.embedClasses o).ratios (offer.embedClasses o)
  let largest := (ratios.maxFinite?.getD 0).max 0
  return .ofNat (largest.ceil.toNatUpTo countLimit)

/-- How many instances of `m` a resource can use. Constraints may ask for more, but a model that
cannot meet them by any number contributes nothing. -/
def Resource.saturationAt (o : Ontology) (r : Resource) (m : Model) :
    Except RequestError UInt32 := do
  let n ← saturationOf o r.model m
  if n ≠ 0 ∧ r.hasConstraints then
    match Pool.scalingFactor o r (.ofPairs [(m, 1)]) with
    | .ok factor =>
      let scaled : UInt32 := .ofNat (factor.ceil.toNatUpTo countLimit)
      return if n < scaled then scaled else n
    | .error _ => return 0
  else return n

/-- How many instances of each model of a pool a resource can use. -/
def Resource.saturationBound (o : Ontology) (base : Pool) (r : Resource) :
    Except RequestError Pool :=
  if base.isEmpty then
    .error (.invalidArgument "saturation bound requires a non-empty base pool" base [r.model])
  else
    base.models.toList.foldlM (fun bound m => return bound.set m (← r.saturationAt o m)) .empty

/-- How many instances of each model of a pool some of the resources can use. -/
def Pool.saturationBound (o : Ontology) (base : Pool) (rs : List Resource) :
    Except RequestError Pool :=
  rs.foldlM (fun bound r => return bound.max (← r.saturationBound o base)) .empty

end Muster
