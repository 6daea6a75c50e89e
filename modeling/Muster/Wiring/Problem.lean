import Muster.Ontology
import Muster.Vocabulary
import Muster.Index

/-!
Wiring problems: instances with endpoints, to be wired in pairs so that all instances hang
together. Two endpoints fit if they belong to different instances and their types are compatible.

A problem is drafted by hand, or drawn from a pool: every atom becomes an instance with as many
endpoints of each interface type as its model may have at most.
-/

namespace Muster

/-- An instance of a model. `modelNumber` numbers the models of the problem, `ordinal` the
instances of one model. -/
structure WiringInstance where
  model : Model
  modelNumber : Nat
  ordinal : Nat
  endpoints : List Nat
deriving DecidableEq, Inhabited

/-- The short name of an instance. -/
def WiringInstance.text (i : WiringInstance) : String :=
  i.model.fragment ++ "#" ++ toString i.ordinal

/-- A place to wire. `owner` and `type` are positions of an instance and of a type, and
`candidates` are the endpoints that fit, in order. -/
structure Endpoint where
  owner : Nat
  type : Nat
  candidates : List Nat
deriving DecidableEq, Inhabited

/-- Instances with endpoints, and which types of endpoints fit together. -/
structure WiringProblem where
  models : List Model
  instances : Array WiringInstance
  types : Array Model
  compatible : List (Nat × Nat)
  endpoints : Array Endpoint
deriving DecidableEq, Inhabited

namespace WiringProblem

/-- The number of instances. -/
def instanceCount (p : WiringProblem) : Nat := p.instances.size

/-- The number of endpoints. -/
def endpointCount (p : WiringProblem) : Nat := p.endpoints.size

/-- Whether there is no instance. -/
def isEmpty (p : WiringProblem) : Bool := p.instances.isEmpty

/-- The instance at a position. -/
def instanceAt (p : WiringProblem) (i : Nat) : WiringInstance := p.instances.getD i default

/-- The instance that an endpoint belongs to. -/
def ownerOf (p : WiringProblem) (e : Nat) : Nat := (p.endpoints.getD e default).owner

/-- The type of an endpoint. -/
def typeOf (p : WiringProblem) (e : Nat) : Nat := (p.endpoints.getD e default).type

/-- The interface type of an endpoint, as a model. -/
def typeModelOf (p : WiringProblem) (e : Nat) : Model := p.types.getD (p.typeOf e) default

/-- The endpoints that fit to `e`. -/
def candidates (p : WiringProblem) (e : Nat) : List Nat := (p.endpoints.getD e default).candidates

/-- Whether two types are in a list of compatible pairs, in either order. -/
def pairListed (pairs : List (Nat × Nat)) (s t : Nat) : Bool :=
  pairs.contains (s, t) || pairs.contains (t, s)

/-- Whether two types fit together. -/
def isCompatible (p : WiringProblem) (s t : Nat) : Bool := pairListed p.compatible s t

/-- The text of a problem. -/
def text (p : WiringProblem) : String :=
  "ConnectivityProblem(instances: " ++ toString p.instanceCount ++ ", endpoints: " ++
    toString p.endpointCount ++ ", interface types: " ++ toString p.types.size ++ ")"

end WiringProblem

/-- An instance that a draft does not have. -/
structure MissingInstance where
  count : Nat
  position : Nat
deriving DecidableEq, Inhabited

/-- The wording of the fault. -/
def MissingInstance.message (m : MissingInstance) : String :=
  "called `ConnectivityProblemBuilder::add_interface` with instance index out of bounds: " ++
    "the len is " ++ toString m.count ++ " but the index is " ++ toString m.position

/-- A problem under construction: models and types in the order of their first use, the model of
each instance, the owner and type of each endpoint, and the pairs of compatible types. -/
structure WiringDraft where
  models : Array Model := #[]
  instanceModels : Array Nat := #[]
  types : Array Model := #[]
  ends : Array (Nat × Nat) := #[]
  compatible : List (Nat × Nat) := []
deriving Inhabited

namespace WiringDraft

/-- The position of a model in a list, which it joins if it is new. -/
def intern (ms : Array Model) (m : Model) : Nat × Array Model :=
  match ms.idxOf? m with
  | some i => (i, ms)
  | none => (ms.size, ms.push m)

/-- Adds an instance. -/
def addInstance (d : WiringDraft) (m : Model) : WiringDraft :=
  let (i, models) := intern d.models m
  { d with models, instanceModels := d.instanceModels.push i }

/-- Adds an endpoint of some type to an instance. -/
def addEndpoint (d : WiringDraft) (owner : Nat) (type : Model) :
    Except MissingInstance WiringDraft :=
  if owner < d.instanceModels.size then
    let (t, types) := intern d.types type
    .ok { d with types, ends := d.ends.push (owner, t) }
  else .error ⟨d.instanceModels.size, owner⟩

/-- Lets two types fit together. -/
def addCompatible (d : WiringDraft) (a b : Model) : WiringDraft :=
  let (i, types) := intern d.types a
  let (j, types) := intern types b
  { d with types, compatible := (i, j) :: d.compatible }

/-- The endpoints that fit to an endpoint of some owner and type. -/
def fitting (d : WiringDraft) (e : Nat × Nat) : List Nat :=
  (d.ends.toList.zipIdx.filter fun (f, _) =>
    f.1 != e.1 && WiringProblem.pairListed d.compatible e.2 f.2).map Prod.snd

/-- The endpoints of an instance. -/
def endpointsOf (d : WiringDraft) (i : Nat) : List Nat :=
  (d.ends.toList.zipIdx.filter fun (f, _) => f.1 == i).map Prod.snd

/-- The number of earlier instances of the same model. -/
def ordinalOf (d : WiringDraft) (i : Nat) : Nat :=
  (d.instanceModels.toList.take i).count (d.instanceModels.getD i 0)

/-- The finished problem. -/
def build (d : WiringDraft) : WiringProblem where
  models := d.models.toList
  instances := (d.instanceModels.toList.zipIdx.map fun (m, i) =>
    { model := d.models.getD m default
      modelNumber := m
      ordinal := d.ordinalOf i
      endpoints := d.endpointsOf i }).toArray
  types := d.types
  compatible := d.compatible
  endpoints := d.ends.map fun e => { owner := e.1, type := e.2, candidates := d.fitting e }

end WiringDraft

namespace WiringProblem

/-- The interface types of a model under a base class, each with the greatest number of endpoints
that the model may have. -/
def interfacesOf (o : Ontology) (base m : Model) : List (Model × Nat) :=
  (BoundMap.ofRestrictions (o.restrictions m Vocabulary.has)).entries.filterMap fun (q, b) =>
    if b.max ≠ 0 ∧ o.isSameOrSubclassOf q base then some (q, b.max.toNat) else none

/-- Adds an instance of `m` with its endpoints. -/
def addAtom (interfaces : List (Model × Nat)) (m : Model) (d : WiringDraft) : WiringDraft :=
  let owner := d.instanceModels.size
  let types := interfaces.flatMap fun (q, n) => List.replicate n q
  types.foldl (fun d q => (d.addEndpoint owner q).toOption.getD d) (d.addInstance m)

/-- Adds all atoms of a pool. -/
def addPool (o : Ontology) (base : Model) (pool : Pool) (d : WiringDraft) : WiringDraft :=
  pool.entries.foldl (fun d (m, n) =>
    let interfaces := interfacesOf o base m
    (List.replicate n.toNat m).foldl (fun d m => addAtom interfaces m d) d) d

/-- Whether two types are stated to be compatible, in either direction. -/
def statedCompatible (o : Ontology) (a b : Model) : Bool :=
  o.isRelated a Vocabulary.compatibleWith b || o.isRelated b Vocabulary.compatibleWith a

/-- Adds the pairs of types that the ontology states to be compatible. -/
def addStated (o : Ontology) (d : WiringDraft) : WiringDraft :=
  let numbered := d.types.toList.zipIdx
  let pairs := numbered.flatMap fun (a, i) =>
    (numbered.filter fun (b, j) => decide (i ≤ j) && statedCompatible o a b).map
      fun (_, j) => (i, j)
  { d with compatible := pairs ++ d.compatible }

/-- The problem of wiring the atoms of a pool by interfaces of a base class. -/
def ofPool (o : Ontology) (pool : Pool) (base : Model) : WiringProblem :=
  (addStated o (addPool o base pool {})).build

end WiringProblem
end Muster
