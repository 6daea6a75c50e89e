import Muster.Wiring.Choice

/-!
Trails: the choices made at a partial wiring, in frames that can be taken back one after the other.
-/

namespace Muster

/-- A choice that was made, with what it takes to undo it. -/
inductive TrailEntry where
  | connected (endpoint owner partner partnerOwner : Nat) (merged : Bool)
  | unconnected (endpoint owner : Nat)
deriving DecidableEq, Inhabited

namespace TrailEntry

/-- Undoes a choice. -/
def undo (w : PartialWiring) : TrailEntry → PartialWiring
  | connected e i f j merged => w.disconnect e i f j merged
  | unconnected e i => w.reopen e i

/-- The text of an entry. -/
def text : TrailEntry → String
  | connected e _ f _ merged =>
    "TrailEntry(connected: " ++ IndexSpace.endpoints.label e ++ " <-> " ++
      IndexSpace.endpoints.label f ++ ", merged: " ++ toString merged ++ ")"
  | unconnected e _ => "TrailEntry(unconnected: " ++ IndexSpace.endpoints.label e ++ ")"

end TrailEntry

/-- The entries, the last one first, and for each open frame, the last one first, the number of
entries before it. -/
structure Trail where
  entries : List TrailEntry := []
  frames : List Nat := []
deriving DecidableEq, Inhabited

namespace Trail

/-- The number of open frames. -/
def depth (t : Trail) : Nat := t.frames.length

/-- Whether there is neither an entry nor a frame. -/
def isEmpty (t : Trail) : Bool := t.entries.isEmpty && t.frames.isEmpty

/-- Opens a frame. -/
def pushFrame (t : Trail) : Trail := { t with frames := t.entries.length :: t.frames }

/-- Makes a choice. -/
def apply (t : Trail) (p : WiringProblem) (w : PartialWiring) (c : Choice) :
    Trail × PartialWiring :=
  let owner := p.ownerOf c.endpoint
  match c.partner with
  | some f =>
    let (merged, w) := w.connect c.endpoint owner f (p.ownerOf f)
    ({ t with entries := .connected c.endpoint owner f (p.ownerOf f) merged :: t.entries }, w)
  | none =>
    ({ t with entries := .unconnected c.endpoint owner :: t.entries },
      w.decideEndpoint c.endpoint owner)

/-- Takes the last `n` entries back. -/
def undoMany (w : PartialWiring) : Nat → List TrailEntry → List TrailEntry × PartialWiring
  | 0, es => (es, w)
  | _, [] => ([], w)
  | n + 1, e :: rest => undoMany (e.undo w) n rest

/-- Closes the last frame and takes its choices back; without a frame nothing happens. -/
def backtrack (t : Trail) (w : PartialWiring) : Trail × PartialWiring :=
  match t.frames with
  | [] => (t, w)
  | mark :: frames =>
    let (entries, w) := undoMany w (t.entries.length - mark) t.entries
    ({ entries, frames }, w)

/-- Takes every choice back and closes all frames. -/
def clear (t : Trail) (w : PartialWiring) : Trail × PartialWiring :=
  ({}, (undoMany w t.entries.length t.entries).2)

/-- The text of a trail. -/
def text (t : Trail) : String :=
  "SearchTrail(entries: " ++ toString t.entries.length ++ ", frames: " ++ toString t.depth ++ ")"

end Trail
end Muster
