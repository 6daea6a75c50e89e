import Muster.Error
import Muster.Double.Text
import Muster.Ordered.Set

/-!
Constraints on data properties, such as `payloadCapacity >= 40`, and the intervals of values that
they admit. `ValueBound.merge` intersects all constraints on one property.
-/

namespace Muster

open Std

/-- How a value is compared with that of a constraint. -/
inductive ConstraintKind where
  | equal
  | lessThan
  | lessOrEqual
  | greaterThan
  | greaterOrEqual
deriving DecidableEq, Inhabited

namespace ConstraintKind

/-- The place of a kind in the order of constraints. -/
def rank : ConstraintKind → Nat
  | equal => 0
  | lessThan => 1
  | lessOrEqual => 2
  | greaterThan => 3
  | greaterOrEqual => 4

/-- The sign for a kind. -/
def text : ConstraintKind → String
  | equal => "=="
  | lessThan => "<"
  | lessOrEqual => "<="
  | greaterThan => ">"
  | greaterOrEqual => ">="

end ConstraintKind

/-- A constraint on one data property. -/
structure PropertyConstraint where
  property : Model
  kind : ConstraintKind
  value : Double
deriving DecidableEq, Inhabited

namespace PropertyConstraint

/-- Constraints are ordered by property, kind and value, the value by the total order. -/
instance : Ord PropertyConstraint :=
  ⟨compareLex (compareOn property) (compareLex (compareOn fun c => c.kind.rank)
    (compareOn fun c => c.value.totalRank))⟩

instance : TransOrd PropertyConstraint :=
  inferInstanceAs (TransCmp (compareLex (compareOn property) (compareLex
    (compareOn fun c => c.kind.rank) (compareOn fun c => c.value.totalRank))))

/-- The text of a constraint. -/
def text (c : PropertyConstraint) : String :=
  " ".intercalate [c.property.fragment, c.kind.text, c.value.text]

end PropertyConstraint

/-- The values from `min` to `max`, both included. -/
structure ValueBound where
  min : Double
  max : Double
deriving DecidableEq, Inhabited

namespace ValueBound

/-- Every value. -/
def unbounded : ValueBound := ⟨.negInfinity, .infinity⟩

/-- Whether no value lies within. -/
def isEmpty (b : ValueBound) : Bool := !decide (b.min ≤ b.max)

/-- Whether `x` lies within. -/
def contains (b : ValueBound) (x : Double) : Bool := decide (b.min ≤ x) && decide (x ≤ b.max)

/-- Whether two bounds have the same ends. -/
def same (a b : ValueBound) : Bool := a.min.same b.min && a.max.same b.max

/-- The values within both bounds, if there are any. -/
def intersect (a b : ValueBound) : Option ValueBound :=
  let c : ValueBound := ⟨a.min.max b.min, a.max.min b.max⟩
  if c.isEmpty then none else some c

/-- The text of a bound. -/
def text (b : ValueBound) : String := "[" ++ b.min.text ++ ", " ++ b.max.text ++ "]"

/-- The values that a constraint admits. -/
def ofConstraint (c : PropertyConstraint) : ValueBound :=
  match c.kind with
  | .equal => ⟨c.value, c.value⟩
  | .lessThan => ⟨.negInfinity, c.value.nextBelow⟩
  | .lessOrEqual => ⟨.negInfinity, c.value⟩
  | .greaterThan => ⟨c.value.nextAbove, .infinity⟩
  | .greaterOrEqual => ⟨c.value, .infinity⟩

/-- Narrows a bound by a constraint. -/
def narrow (b : ValueBound) (c : PropertyConstraint) : Except ModelError ValueBound :=
  match b.intersect (ofConstraint c) with
  | some b' => .ok b'
  | none => .error (.unsatisfiable c.property
      ("'" ++ c.text ++ "' contradicts the bound " ++ b.text))

/-- The values that all constraints on `property` admit. -/
def merge (property : Model) (cs : List PropertyConstraint) : Except ModelError ValueBound :=
  (cs.filter (·.property == property)).foldlM narrow unbounded

end ValueBound
end Muster
