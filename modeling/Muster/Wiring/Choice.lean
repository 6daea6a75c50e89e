import Muster.Wiring.Partial

/-!
The choices that a search has at a partial wiring: an open endpoint is wired to a partner or left
unconnected. Only partners in other components matter, since a connected wiring needs no wire
inside one, and of partners that cannot be told apart one is enough.
-/

namespace Muster

/-- Wires an endpoint to a partner, or leaves it unconnected. -/
structure Choice where
  endpoint : Nat
  partner : Option Nat
deriving DecidableEq, Inhabited

namespace Choice

/-- Whether the endpoint is wired. -/
def isConnection (c : Choice) : Bool := c.partner.isSome

/-- The text of a choice. -/
def text (c : Choice) : String :=
  let endpoint := IndexSpace.endpoints.label c.endpoint
  match c.partner with
  | some p => "Decision(" ++ endpoint ++ " <-> " ++ IndexSpace.endpoints.label p ++ ")"
  | none => "Decision(" ++ endpoint ++ " unconnected)"

end Choice

/-- What tells partners of one endpoint apart: the type of the partner together with its instance,
or, as long as nothing is decided at the instance, with the model of the instance. -/
inductive PartnerKey where
  | untouched (modelNumber type : Nat)
  | owned (instancePosition type : Nat)
deriving DecidableEq, Inhabited

namespace PartnerKey

/-- Untouched partners come first, then keys are compared part by part. -/
def rank : PartnerKey → List Nat
  | untouched m t => [0, m, t]
  | owned i t => [1, i, t]

instance : Ord PartnerKey := ⟨compareOn rank⟩

end PartnerKey

namespace PartialWiring

variable (w : PartialWiring) (p : WiringProblem)

/-- Whether `f` is open and outside the component that instance `root` stands for. -/
def isOpenOutside (root f : Nat) : Bool := w.isOpen f && w.componentOf (p.ownerOf f) != root

/-- The open endpoints in other components that fit to `e`. -/
def openCandidates (e : Nat) : List Nat :=
  (p.candidates e).filter (w.isOpenOutside p (w.componentOf (p.ownerOf e)))

/-- Whether `e` has an open candidate. -/
def hasOpenCandidate (e : Nat) : Bool :=
  (p.candidates e).any (w.isOpenOutside p (w.componentOf (p.ownerOf e)))

theorem hasOpenCandidate_iff (e : Nat) : w.hasOpenCandidate p e ↔ w.openCandidates p e ≠ [] := by
  simp [hasOpenCandidate, openCandidates, List.filter_eq_nil_iff]

/-- The key of a partner. -/
def partnerKey (f : Nat) : PartnerKey :=
  let owner := p.ownerOf f
  if w.isUntouched owner then .untouched (p.instanceAt owner).modelNumber (p.typeOf f)
  else .owned owner (p.typeOf f)

/-- The first endpoint of each key, in order. -/
def firstOfEach : List PartnerKey → List Nat → List Nat
  | _, [] => []
  | seen, f :: rest =>
    let key := w.partnerKey p f
    if seen.contains key then firstOfEach seen rest else f :: firstOfEach (key :: seen) rest

/-- One partner for each key among the open candidates of `e`. -/
def representatives (e : Nat) : List Nat := w.firstOfEach p [] (w.openCandidates p e)

/-- The endpoints that can still be wired, ascending. -/
def branchable : List Nat :=
  (List.range p.endpointCount).filter fun e => w.isOpen e && w.hasOpenCandidate p e

/-- The first endpoint that can still be wired. -/
def firstEndpoint : Option Nat := (w.branchable p).head?

/-- The component size and the number of candidates of an endpoint. -/
def urgency (e : Nat) : Nat × Nat :=
  (w.componentSize (p.ownerOf e), (w.openCandidates p e).length)

/-- The first endpoint, among those that can still be wired, of a largest component and with the
fewest candidates there. -/
def mostUrgentEndpoint : Option Nat :=
  (reduce? (fun best e =>
    if e.2.1 > best.2.1 ∨ (e.2.1 = best.2.1 ∧ e.2.2 < best.2.2) then e else best)
    ((w.branchable p).map fun e => (e, w.urgency p e))).map Prod.fst

end PartialWiring
end Muster
