import Muster.Wiring.Choice

/-!
The choices that are still to be tried, level by level. All levels share one stack of partners; a
level knows which endpoint its partners are for and how many partners lie below it.
-/

namespace Muster

/-- A level of choices. -/
structure ChoiceLevel where
  endpoint : Option Nat
  below : Nat
deriving DecidableEq, Inhabited

/-- The partners still to be tried and the levels they belong to, the last ones first. -/
structure ChoiceStack where
  pending : List (Option Nat) := []
  levels : List ChoiceLevel := []
deriving DecidableEq, Inhabited

namespace ChoiceStack

/-- The number of levels. -/
def depth (s : ChoiceStack) : Nat := s.levels.length

/-- Whether there is no level. -/
def isEmpty (s : ChoiceStack) : Bool := s.levels.isEmpty

/-- The number of choices still to be tried, on all levels. -/
def pendingCount (s : ChoiceStack) : Nat := s.pending.length

/-- Opens a level. -/
def pushLevel (s : ChoiceStack) : ChoiceStack :=
  { s with levels := ⟨none, s.pending.length⟩ :: s.levels }

/-- Drops the last level with its untried choices. The answer is the endpoint of the level. -/
def popLevel (s : ChoiceStack) : Option Nat × ChoiceStack :=
  match s.levels with
  | [] => (none, s)
  | l :: levels => (l.endpoint, ⟨s.pending.drop (s.pending.length - l.below), levels⟩)

/-- Adds choices to the last level; the one added last is tried first. The answer is their
number, zero if there is no level. -/
def offer (s : ChoiceStack) (cs : List Choice) : Nat × ChoiceStack :=
  match s.levels with
  | [] => (0, s)
  | l :: levels =>
    let endpoint := (cs.getLast?.map Choice.endpoint).or l.endpoint
    (cs.length, ⟨(cs.map Choice.partner).reverse ++ s.pending, { l with endpoint } :: levels⟩)

/-- Whether the last level has nothing left to try. -/
def isExhausted (s : ChoiceStack) : Bool :=
  match s.levels with
  | [] => true
  | l :: _ => s.pending.length == l.below

/-- Takes the next choice of the last level. -/
def next (s : ChoiceStack) : Option Choice × ChoiceStack :=
  match s.levels, s.pending with
  | ⟨some e, below⟩ :: _, partner :: pending =>
    if s.pending.length = below then (none, s) else (some ⟨e, partner⟩, { s with pending })
  | _, _ => (none, s)

/-- The endpoint of the last level. -/
def endpoint? (s : ChoiceStack) : Option Nat := s.levels.head?.bind ChoiceLevel.endpoint

/-- The text of a stack. -/
def text (s : ChoiceStack) : String :=
  let head := "BranchStack(depth: " ++ toString s.depth ++ ", pending: " ++ toString s.pendingCount
  match s.endpoint? with
  | some e => head ++ ", branching on " ++ IndexSpace.endpoints.label e ++ ")"
  | none => head ++ ")"

end ChoiceStack
end Muster
