import Muster.Property.Value

/-!
Physical figures of robots. A robot is one instance of a model, or a pool of instances that make up
one system; its figures come from the data properties of their models. A figure that no model states
is absent.
-/

namespace Muster

/-- A system made of the instances of a pool. -/
structure Robot where
  pool : Pool
deriving DecidableEq, Inhabited

namespace Robot

/-- One instance of a model. -/
def atomic (m : Model) : Robot := ⟨.single m⟩

/-- Whether the robot is a single instance. -/
def isAtomic (r : Robot) : Bool := r.pool.totalAtoms == 1

variable (o : Ontology) (r : Robot)

/-- The mass in kilograms: that of all parts. -/
def mass : Option Double := r.pool.dataValue o Vocabulary.mass .sum

/-- The usual velocity in metres per second: that of the slowest part. -/
def nominalVelocity : Option Double := r.pool.dataValue o Vocabulary.nominalVelocity .min

/-- The greatest velocity in metres per second: that of the slowest part. -/
def maxVelocity : Option Double := r.pool.dataValue o Vocabulary.maxVelocity .min

/-- The supply voltage in volts: the highest of all parts. -/
def supplyVoltage : Option Double := r.pool.dataValue o Vocabulary.supplyVoltage .max

/-- The capacity of the power sources in ampere hours: that of all parts. -/
def powerSourceCapacity : Option Double := r.pool.dataValue o Vocabulary.powerSourceCapacity .sum

/-- The usual power consumption in watts: that of all parts. -/
def nominalPowerConsumption : Option Double :=
  r.pool.dataValue o Vocabulary.nominalPowerConsumption .sum

/-- How many agents the robot can carry. -/
def transportCapacity : Option Nat :=
  (r.pool.transportCapacity o).map (·.toNatUpTo countLimit)

/-- How many seconds make an hour. -/
def secondsPerHour : Double := 3600

/-- The energy that the power sources hold, in watt seconds. -/
def energyCapacity : Option Double :=
  return (← r.powerSourceCapacity o) * (← r.supplyVoltage o) * secondsPerHour

/-- The energy for running some seconds, in watt seconds. -/
def energyForTime (seconds : Double) : Option Double :=
  return (← r.nominalPowerConsumption o) * seconds

/-- The energy for travelling some metres, in watt hours, if the robot moves. -/
def energyForDistance (metres : Double) : Option Double := do
  let velocity ← (r.nominalVelocity o).filter (0 < ·)
  return (← r.energyForTime o (metres / velocity)) / secondsPerHour

/-- The share of the energy capacity for travelling some metres. -/
def energyShareForDistance (metres : Double) : Option Double := do
  let capacity ← (r.energyCapacity o).filter (0 < ·)
  return (← r.energyForDistance o metres) * secondsPerHour / capacity

/-- The text of a robot. -/
def text (r : Robot) : String := "Robot(" ++ r.pool.text ++ ")"

/-- The text of a robot as a record. -/
def recordText (r : Robot) : String :=
  "Robot \x7b model_pool: " ++ r.pool.fullText ++ " \x7d"

end Robot
end Muster
