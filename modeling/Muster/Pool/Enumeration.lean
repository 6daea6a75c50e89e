import Muster.Counter
import Muster.Pool.Atoms

/-!
Every non-empty pool within a bound, one after the other. The counts run like an odometer over the
models of the bound, the first model turning fastest; a count that may not grow, because it has
reached its bound or the pool its budget of instances, falls back to zero and lets the next turn.
-/

namespace Muster

/-- The pools that an enumeration stops at. -/
inductive EnumerationMode where
  /-- Every pool that holds at most as many instances as the budget allows. -/
  | max
  /-- Only pools that use up the budget. -/
  | exact
deriving DecidableEq, Inhabited

/-- One wheel of the odometer: the present count of a model, and its greatest. -/
structure Wheel where
  model : Model
  bound : Nat
  count : Nat
deriving DecidableEq, Inhabited

/-- The wheel set back to zero. -/
def Wheel.reset (w : Wheel) : Wheel := { w with count := 0 }

/-- A place in an enumeration. `limit` is the greatest number of pools to list, if there is one,
and `position` the number of pools passed. -/
structure Enumeration where
  wheels : List Wheel
  budget : Nat
  mode : EnumerationMode
  limit : Option Nat
  position : Nat
  exhausted : Bool
deriving DecidableEq, Inhabited

namespace Enumeration

/-- The instances that all wheels count. -/
def total (ws : List Wheel) : Nat := sumOf (ws.map Wheel.count)

/-- The number of settings of the wheels. -/
def settings (ws : List Wheel) : Nat := productOf (ws.map fun w => w.bound + 1)

/-- Turns the first wheel that may turn and sets those before it to zero. `held` is what the
wheels, and those behind them, count together. -/
def turn (budget held : Nat) : List Wheel → Option (List Wheel)
  | [] => none
  | w :: rest =>
    if w.count < w.bound ∧ held < budget then some ({ w with count := w.count + 1 } :: rest)
    else (turn budget (held - w.count) rest).map (w.reset :: ·)

/-- Whether the enumeration stops at pools of `n` instances. -/
def stopsAt (budget : Nat) : EnumerationMode → Nat → Bool
  | .max, n => decide (1 ≤ n ∧ n ≤ budget)
  | .exact, n => decide (n = budget)

/-- Turns until the enumeration stops, at most `fuel` times. -/
def seek (budget : Nat) (mode : EnumerationMode) : Nat → List Wheel → Option (List Wheel)
  | 0, _ => none
  | fuel + 1, ws =>
    match turn budget (total ws) ws with
    | none => none
    | some ws' => if stopsAt budget mode (total ws') then some ws' else seek budget mode fuel ws'

/-- Moves the wheels on. No setting comes twice, so there are no more turns than settings. -/
def moveOn (e : Enumeration) : Enumeration :=
  match seek e.budget e.mode (settings e.wheels) e.wheels with
  | none => { e with exhausted := true }
  | some ws => { e with wheels := ws }

/-- Goes back to the first pool, if there is one. -/
def restart (e : Enumeration) : Enumeration :=
  let start := { e with wheels := e.wheels.map Wheel.reset, position := 0 }
  if e.wheels.isEmpty || e.budget == 0 || e.limit == some 0 then { start with exhausted := true }
  else moveOn { start with exhausted := false }

/-- The pools within `bound`, at the first one. -/
def within (bound : Pool) (budget : Nat) (mode : EnumerationMode) : Enumeration :=
  restart {
    wheels := bound.normalized.entries.map fun e => ⟨e.1, e.2.toNat, 0⟩
    budget, mode, limit := none, position := 0, exhausted := false }

/-- Lists at most `limit` pools. -/
def withLimit (e : Enumeration) (limit : Nat) : Enumeration :=
  { e with limit := some limit, exhausted := e.exhausted || limit == 0 }

/-- The pool that the wheels count. -/
def poolOf (ws : List Wheel) : Pool :=
  .ofPairs ((ws.filter (·.count != 0)).map fun w => (w.model, .ofNat w.count))

/-- The pool that the enumeration is at. -/
def current? (e : Enumeration) : Option Pool :=
  if e.exhausted then none else some (poolOf e.wheels)

/-- The pool that the enumeration is at, instance by instance. -/
def currentAtoms? (e : Enumeration) : Except ModelError (Option AtomList) :=
  match e.current? with
  | none => .ok none
  | some p => (AtomList.ofPool p).map some

/-- Goes to the next pool, if there is one and the limit allows it. -/
def advance (e : Enumeration) : Enumeration :=
  if e.exhausted then e
  else
    let next := { e with position := e.position + 1 }
    match e.limit with
    | some limit =>
      if limit ≤ next.position then { next with exhausted := true } else next.moveOn
    | none => next.moveOn

/-- The current pool, and the enumeration past it. -/
def next? (e : Enumeration) : Option (Pool × Enumeration) :=
  e.current?.map fun p => (p, e.advance)

/-- The next pools, `n` of them or as many as there are, and the enumeration past them. -/
def take (e : Enumeration) : Nat → List Pool × Enumeration
  | 0 => ([], e)
  | n + 1 =>
    match e.next? with
    | none => ([], e)
    | some (p, rest) =>
      let (ps, last) := rest.take n
      (p :: ps, last)

/-- All pools that are left. -/
def toList (e : Enumeration) : List Pool := (e.take (settings e.wheels)).1

end Enumeration

/-- The number of non-empty pools within `bound`, as far as 64 bits hold it: the product of all
counts plus one, less one. -/
def totalCombinations (bound : Pool) : Nat :=
  bound.entries.foldl (fun n e => Nat.min (n * (e.2.toNat + 1)) tallyLimit) 1 - 1

end Muster
