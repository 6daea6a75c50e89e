import Muster.Functionality.Error
import Muster.Support.Vector

/-!
How well a pool serves functionalities: the needs of the functionalities, taken together, against
the offers of the atoms, added up.
-/

namespace Muster

namespace SupportVector

/-- What functionalities need together. -/
def requirement (o : Ontology) (fs : List Model) : Except RequestError SupportVector :=
  (ofModels o fs [] false).mapError .model

/-- What the atoms of a pool offer of the given labels. -/
def availability (o : Ontology) (pool : Pool) (labels : List Model) :
    Except RequestError SupportVector :=
  pool.normalized.entries.foldlM (fun sum e => do
    let offer ← (ofModels o [e.1] labels true).mapError .model
    return sum.accumulate offer (.ofNat e.2.toNat)) (zeros labels)

end SupportVector

namespace Pool

/-- How well the pool serves functionalities. -/
def supportType (o : Ontology) (fs : List Model) (pool : Pool) :
    Except RequestError SupportType := do
  let required ← SupportVector.requirement o fs
  let available ← SupportVector.availability o pool required.labels
  return required.supportFrom available

/-- How well a number of instances of one model serves functionalities. -/
def modelSupportType (o : Ontology) (fs : List Model) (m : Model) (n : UInt32) :
    Except RequestError SupportType := supportType o fs (.ofPairs [(m, n)])

/-- Whether the pool serves functionalities fully. -/
def isSupporting (o : Ontology) (fs : List Model) (pool : Pool) : Except RequestError Bool :=
  return (← supportType o fs pool) == .fullSupport

end Pool
end Muster
