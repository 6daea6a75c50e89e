import Muster.Pool.Basic

/-!
Agents: the instances of a pool as individuals. Agents of one model differ only by their numbers.
-/

namespace Muster

open Std

/-- An instance of a model, told from others by its number. -/
structure Agent where
  model : Model
  number : Nat
deriving DecidableEq, Inhabited

namespace Agent

/-- Agents are ordered by model, then by number. -/
instance : Ord Agent := ⟨compareLex (compareOn model) (compareOn number)⟩

/-- The text of an agent. -/
def text (a : Agent) : String := a.model.fragment ++ "#" ++ toString a.number

instance : ToString Agent := ⟨text⟩

end Agent

/-- The agents of a pool, in the order of their models. -/
def Pool.agents (p : Pool) : List Agent :=
  p.entries.flatMap fun e => (List.range e.2.toNat).map (Agent.mk e.1)

/-- How many agents of each model there are. -/
def Pool.ofAgents (agents : List Agent) : Pool := .ofPairs (agents.map fun a => (a.model, 1))

end Muster
