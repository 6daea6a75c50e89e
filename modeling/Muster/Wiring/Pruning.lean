import Muster.Wiring.Choice

/-!
Partial wirings that cannot be completed. To link `c` components takes `c - 1` wires, so a component
without an endpoint that can still be wired is cut off, and fewer than `2 * (c - 1)` such endpoints
are too few.
-/

namespace Muster

/-- Why a partial wiring cannot be completed. -/
inductive PruneReason where
  | disconnected
  | interfacesExhausted
deriving DecidableEq, Inhabited

/-- The name of a reason. -/
def PruneReason.text : PruneReason → String
  | disconnected => "Disconnected"
  | interfacesExhausted => "InterfacesExhausted"

namespace PartialWiring

variable (w : PartialWiring) (p : WiringProblem)

/-- The instances that stand for the components. -/
def roots : List Nat := (List.range p.instanceCount).filter fun i => w.componentOf i == i

/-- A reason why the partial wiring cannot be completed, if one is seen. -/
def pruneReason : Option PruneReason :=
  if w.componentCount ≤ 1 then none
  else
    let usable := w.branchable p
    let exits := usable.map fun e => w.componentOf (p.ownerOf e)
    if !(w.roots p).all exits.contains then some .disconnected
    else if usable.length < 2 * (w.componentCount - 1) then some .interfacesExhausted
    else none

/-- Counts an endpoint if it can still be wired, and marks its component. -/
def markExit (found : Nat × Array Bool) (e : Nat) : Nat × Array Bool :=
  if w.isOpen e && w.hasOpenCandidate p e then
    (found.1 + 1, found.2.setIfInBounds (w.componentOf (p.ownerOf e)) true)
  else found

/-- Marks for `n` instances: those that are there stay, and the others are not set. -/
def resizeMarks (marks : Array Bool) (n : Nat) : Array Bool :=
  marks.take n ++ Array.replicate (n - marks.size) false

/-- Looks for a reason why the partial wiring cannot be completed in one pass over the endpoints,
with marks at the instances that stand for components which can still be wired. The marks are kept
from one wiring to the next, so the old ones are taken away first. -/
def propagate (marks : Array Bool) : Option PruneReason × Array Bool :=
  if w.componentCount ≤ 1 then (none, marks)
  else
    let unmarked := resizeMarks (marks.shrink 0) p.instanceCount
    let (usable, marks) := (List.range p.endpointCount).foldl (w.markExit p) (0, unmarked)
    if !(w.roots p).all fun i => marks.getD i false then (some .disconnected, marks)
    else if usable < 2 * (w.componentCount - 1) then (some .interfacesExhausted, marks)
    else (none, marks)

end PartialWiring
end Muster
