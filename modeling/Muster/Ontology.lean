import Muster.Cardinality
import Muster.Double.Basic

/-!
What is known about models: the taxonomy of classes, the restrictions and data values that models
carry, and how models are related. All analyses read models through an `Ontology` only.
-/

namespace Muster

/-- The questions that can be asked about models. -/
structure Ontology where
  /-- The subclasses of a model, without the model itself; only its children if asked so. -/
  subclassesOf : Model → Bool → List Model
  /-- Whether the first model is a strict subclass of the second. -/
  isSubclassOf : Model → Model → Bool
  /-- The restrictions of a model on a relation, inherited ones included. -/
  restrictions : Model → Model → List CardinalityRestriction
  /-- The value of a data property of a model. -/
  dataValue : Model → Model → Option Double
  /-- Whether a subject stands in a relation to an object. -/
  isRelated : Model → Model → Model → Bool := fun _ _ _ => false

namespace Ontology

/-- Whether `m` is `parent` or a subclass of it. -/
def isSameOrSubclassOf (o : Ontology) (m parent : Model) : Bool :=
  m == parent || o.isSubclassOf m parent

/-- The same knowledge without any relation between models. -/
def withoutRelations (o : Ontology) : Ontology := { o with isRelated := fun _ _ _ => false }

end Ontology
end Muster
