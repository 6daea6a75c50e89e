import Muster.Coalition.Search
import Muster.Functionality.Search
import Muster.Pool.Delta

/-!
Organizations: what can be put together from a pool of actors. An organization is prepared once with
the pools that serve each functionality; questions about support are then answered from that
mapping, and questions about wirings and coalitions by a search.
-/

namespace Muster

/-- Why an organization does not answer. -/
inductive OrganizationError where
  /-- The answer needs a mapping, and none has been prepared. -/
  | notPrepared
  | request (e : RequestError)
deriving DecidableEq, Inhabited

/-- The wording of an error. -/
def OrganizationError.message : OrganizationError → String
  | notPrepared => "organization ask is not prepared: call `prepare` with a model pool first"
  | request e => e.message

/-- The actors at hand, and the mapping that was prepared for them. -/
structure Organization where
  ontology : Ontology
  clock : Clock
  config : MappingConfig := {}
  pool : Pool := .empty
  prepared? : Option FunctionalityMapping := none

namespace Organization

/-- Whether a mapping has been prepared. -/
def isPrepared (org : Organization) : Bool := org.prepared?.isSome

/-- The mapping that was prepared. -/
def mapping (org : Organization) : Except OrganizationError FunctionalityMapping :=
  match org.prepared? with
  | some m => .ok m
  | none => .error .notPrepared

/-- Passes on the answer to a request. -/
def answer {α : Type} (r : Except RequestError α) : Except OrganizationError α :=
  r.mapError .request

/-- All functionalities that are known. -/
def functionalities (org : Organization) : List Model :=
  org.ontology.subclassesOf Vocabulary.functionality false

/-- The pools within `pool` that serve each functionality. -/
def mappingOf (org : Organization) (pool : Pool) (fs : List Model) (useSaturation : Bool) :
    Except OrganizationError FunctionalityMapping :=
  answer (pool.functionalityMapping org.ontology org.config org.clock fs useSaturation)

/-- The organization prepared for the actors of a pool. -/
def prepare (org : Organization) (pool : Pool) : Except OrganizationError Organization := do
  let actors := pool.subclassesOnly org.ontology Vocabulary.actor
  let mapping ← org.mappingOf actors org.functionalities org.config.useSaturation
  return { org with pool := actors, prepared? := some mapping }

/-- One of each functionality that some pool serves. -/
def supported (org : Organization) : Except OrganizationError Pool :=
  return .ofPairs ((← org.mapping).supported.toList.map fun f => (f, 1))

/-- A pool taken a number of times. -/
def scale (pool : Pool) (factor : Double) : Option Pool :=
  if factor.isZero then none
  else if factor.same 1 then some pool
  else some (pool.multiply factor)

/-- The pools that serve a resource. Constraints make pools larger; then each is kept within the
actors at hand. -/
def support (org : Organization) (r : Resource) : Except OrganizationError PoolSet := do
  let pools := (← org.mapping).poolsOf r.model
  if !r.hasConstraints then return pools
  let factors := Pool.scalingFactors org.ontology r pools
  let scaled := (pools.toList.zip factors).filterMap fun e => scale e.1 e.2
  return Pool.boundAll (.ofList scaled) org.pool

/-- The maxima of one serving pool for each resource, joined to those of `composed`. -/
def composeSupport (org : Organization) (composed : PoolSet) :
    List Resource → Except OrganizationError PoolSet
  | [] => return composed
  | r :: rest => do
    let pools ← org.support r
    if pools.isEmpty then return .empty
    org.composeSupport (Pool.maxCompositions composed pools) rest

/-- The pools that serve all of some resources together: the maxima of one serving pool for each. -/
def supportAll (org : Organization) (rs : List Resource) : Except OrganizationError PoolSet :=
  org.composeSupport .empty rs

/-- How many actors of each model some of the resources can use. -/
def saturationBound (org : Organization) (rs : List Resource) : Except OrganizationError Pool := do
  let _ ← org.mapping
  answer (org.pool.saturationBound org.ontology rs)

/-- The minimal pools among those that serve all of some resources, within what these can use. -/
def boundedSupport (org : Organization) (rs : List Resource) :
    Except OrganizationError PoolSet := do
  let pools ← org.supportAll rs
  let minimal ← answer (Pool.minimalOf org.ontology (rs.map (·.model)) pools)
  return Pool.boundAll minimal (← org.saturationBound rs)

/-- The pools that serve each of some resources by themselves. -/
def commonSupport (org : Organization) (rs : List Resource) : Except OrganizationError PoolSet := do
  let mapping ← org.mapping
  match rs with
  | [] => return .empty
  | r :: rest =>
    return (mapping.poolsOf r.model).filter fun p =>
      rest.all fun other => p ∈ mapping.poolsOf other.model

/-- Whether there are enough actors for both teams at once. -/
def canBeDistinct (org : Organization) (a b : AtomList) : Bool :=
  !(PoolDelta.between org.pool (a.toPool.sum b.toPool)).isNegative

/-- How to search for wirings within some time. -/
def wiringConfig (org : Organization) (timeout : Duration) : WiringConfig :=
  org.config.wiring.withTimeout timeout

/-- Whether a wiring of a pool is found in time. -/
def isFeasible (org : Organization) (pool : Pool) (timeout : Duration) : Bool :=
  pool.isWirable org.ontology (org.wiringConfig timeout) org.clock

/-- A wiring of a pool, if one is found in time. -/
def feasibleWiring? (org : Organization) (pool : Pool) (timeout : Duration) :
    Option ConnectionGraph := pool.wiring? org.ontology (org.wiringConfig timeout) org.clock

/-- Whether a pool holds one that serves all of some resources, and can be wired in time. -/
def isSupporting (org : Organization) (pool : Pool) (rs : List Resource) (timeout : Duration) :
    Except OrganizationError Bool := do
  let supports ← org.commonSupport rs
  return supports.toList.any (·.isSubset pool) && org.isFeasible pool timeout

end Organization

/-- Values a coalition by whether it serves some resources: one if it does and zero otherwise. -/
structure SupportOracle where
  organization : Organization
  resources : List Resource
  timeout : Duration

instance : CoalitionOracle SupportOracle where
  value oracle coalition :=
    let pool := Pool.ofAgents coalition
    match oracle.organization.isSupporting pool oracle.resources oracle.timeout with
    | .ok true => (1, oracle)
    | _ => (0, oracle)

namespace Organization

/-- The coalitions that were found, or none if they are not worth `threshold`. -/
def acceptFrom (threshold : Double) (found : CoalitionOutcome) : CoalitionOutcome :=
  if found.value < threshold ∧ !found.isEmpty then { found with coalitions := [], value := 0 }
  else found

/-- Splits the atoms of a pool into coalitions that each serve all of some resources, into as few as
possible. The time limits the search as a whole and the search for each wiring. -/
def coalitions (org : Organization) (pool : Pool) (rs : List Resource) (timeout : Duration) :
    Except OrganizationError CoalitionOutcome := do
  let _ ← org.mapping
  let config := CoalitionConfig.withTimeLimit {} timeout
  let found := CoalitionSolver.solve { config } org.clock pool.agents
    ({ organization := org, resources := rs, timeout } : SupportOracle)
  return acceptFrom config.threshold found.outcome

end Organization
end Muster
