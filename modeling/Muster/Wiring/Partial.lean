import Muster.DisjointSet
import Muster.Wiring.Problem

/-!
Partial wirings: some endpoints are decided, each either wired to a partner or left unconnected,
and the others are open. The instances that wires link so far form components.
-/

namespace Muster

/-- A wiring under construction. -/
structure PartialWiring where
  partners : Array (Option Nat)
  decided : Array Bool
  decidedAt : Array Nat
  components : DisjointSet
  decidedCount : Nat
  connectionCount : Nat
deriving DecidableEq, Inhabited

namespace PartialWiring

/-- Nothing decided yet. -/
def start (instances endpoints : Nat) : PartialWiring where
  partners := Array.replicate endpoints none
  decided := Array.replicate endpoints false
  decidedAt := Array.replicate instances 0
  components := .singletons instances
  decidedCount := 0
  connectionCount := 0

/-- Nothing decided yet in a problem. -/
def ofProblem (p : WiringProblem) : PartialWiring := start p.instanceCount p.endpointCount

/-- The number of endpoints. -/
def endpointCount (w : PartialWiring) : Nat := w.partners.size

/-- The number of instances. -/
def instanceCount (w : PartialWiring) : Nat := w.decidedAt.size

/-- The number of components. -/
def componentCount (w : PartialWiring) : Nat := w.components.components

/-- Whether all instances hang together. -/
def isConnected (w : PartialWiring) : Bool := decide (w.componentCount ≤ 1)

/-- Whether an endpoint is undecided. -/
def isOpen (w : PartialWiring) (e : Nat) : Bool := !w.decided.getD e false

/-- The endpoint that `e` is wired to. -/
def partnerOf (w : PartialWiring) (e : Nat) : Option Nat := w.partners.getD e none

/-- Whether no endpoint of an instance is decided. -/
def isUntouched (w : PartialWiring) (i : Nat) : Bool := w.decidedAt.getD i 0 == 0

/-- The instance that stands for the component of `i`. -/
def componentOf (w : PartialWiring) (i : Nat) : Nat := w.components.find i

/-- The number of instances in the component of `i`. -/
def componentSize (w : PartialWiring) (i : Nat) : Nat := w.components.sizeOf i

/-- Whether two instances are in one component. -/
def sameComponent (w : PartialWiring) (i j : Nat) : Bool := w.components.same i j

/-- The wired pairs, each with its lower endpoint first, in the order of these. -/
def connections (w : PartialWiring) : List (Nat × Nat) :=
  w.partners.toList.zipIdx.filterMap fun (partner, e) =>
    match partner with
    | some p => if e < p then some (e, p) else none
    | none => none

/-- Decides an endpoint of instance `i`. -/
def decideEndpoint (w : PartialWiring) (e i : Nat) : PartialWiring :=
  { w with
    decided := w.decided.setIfInBounds e true
    decidedAt := w.decidedAt.modify i (· + 1)
    decidedCount := w.decidedCount + 1 }

/-- Opens an endpoint of instance `i` again. -/
def reopen (w : PartialWiring) (e i : Nat) : PartialWiring :=
  { w with
    decided := w.decided.setIfInBounds e false
    decidedAt := w.decidedAt.modify i (· - 1)
    decidedCount := w.decidedCount - 1 }

/-- Wires endpoint `e` of instance `i` to endpoint `f` of instance `j`. The answer says whether
this merged two components. -/
def connect (w : PartialWiring) (e i f j : Nat) : Bool × PartialWiring :=
  let wired := ({ w with
    partners := (w.partners.setIfInBounds e (some f)).setIfInBounds f (some e)
    connectionCount := w.connectionCount + 1 }.decideEndpoint e i).decideEndpoint f j
  let (merged, components) := wired.components.union i j
  (merged, { wired with components })

/-- Takes a wire back, with the merging it caused. -/
def disconnect (w : PartialWiring) (e i f j : Nat) (merged : Bool) : PartialWiring :=
  let opened := ({ w with
    components := if merged then w.components.undoLast.2 else w.components
    connectionCount := w.connectionCount - 1 }.reopen f j).reopen e i
  { opened with partners := (opened.partners.setIfInBounds f none).setIfInBounds e none }

/-- The text of a partial wiring. -/
def text (w : PartialWiring) : String :=
  "SearchState(decided: " ++ toString w.decidedCount ++ "/" ++ toString w.endpointCount ++
    ", connections: " ++ toString w.connectionCount ++ ", components: " ++
    toString w.componentCount ++ ")"

end PartialWiring
end Muster
