import Muster.Model

/-!
The names of the organization vocabulary that the library itself uses. All other models are known
only through the ontology they are described in.
-/

namespace Muster.Vocabulary

/-- The address that every term of the vocabulary starts with. -/
def namespaceId : String := "http://www.rock-robotics.org/2014/01/om-schema#"

/-- The model that a term of the vocabulary names. -/
def resolve (term : String) : Model := ⟨namespaceId ++ term⟩

/-- Links a model to the resources it owns. -/
def has : Model := resolve "has"

/-- Links the types of interfaces that fit together. -/
def compatibleWith : Model := resolve "compatibleWith"

/-- The class of all functionalities that can be asked for. -/
def functionality : Model := resolve "Functionality"

/-- The class of all agents. -/
def actor : Model := resolve "Actor"

/-- The class of interfaces that are wired unless another one is named. -/
def electroMechanicalInterface : Model := resolve "ElectroMechanicalInterface"

/-- Links a model to the payload slots it offers. -/
def hasTransportCapacity : Model := resolve "hasTransportCapacity"

/-- The mass of one atom in kilograms. -/
def mass : Model := resolve "mass"

/-- The usual travel velocity in metres per second. -/
def nominalVelocity : Model := resolve "nominalVelocity"

/-- The greatest travel velocity in metres per second. -/
def maxVelocity : Model := resolve "maxVelocity"

/-- The supply voltage in volts. -/
def supplyVoltage : Model := resolve "supplyVoltage"

/-- The capacity of the power source in ampere hours. -/
def powerSourceCapacity : Model := resolve "powerSourceCapacity"

/-- The usual power consumption in watts. -/
def nominalPowerConsumption : Model := resolve "nominalPowerConsumption"

end Muster.Vocabulary
