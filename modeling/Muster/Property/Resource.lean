import Muster.Property.Constraint

/-!
Resources: models together with constraints on their data properties, such as transport with a
payload capacity of at least 40.
-/

namespace Muster

open Std

/-- A model with constraints, kept in order. -/
structure Resource where
  model : Model
  constraints : List PropertyConstraint := []
deriving DecidableEq, Inhabited

namespace Resource

/-- Puts a constraint behind those that do not come after it. -/
def place (c : PropertyConstraint) : List PropertyConstraint → List PropertyConstraint
  | [] => [c]
  | d :: rest => if (compare d c).isLE then d :: place c rest else c :: d :: rest

/-- The resource with one more constraint. -/
def withConstraint (r : Resource) (c : PropertyConstraint) : Resource :=
  { r with constraints := place c r.constraints }

/-- A model with constraints given in any order. -/
def ofConstraints (m : Model) (cs : List PropertyConstraint) : Resource :=
  cs.foldl withConstraint ⟨m, []⟩

/-- Whether there is a constraint. -/
def hasConstraints (r : Resource) : Bool := !r.constraints.isEmpty

/-- The constrained properties, in order. -/
def properties (r : Resource) : OrderedSet Model := .ofList (r.constraints.map (·.property))

/-- The constraints on each constrained property. -/
def clusters (r : Resource) : List (Model × List PropertyConstraint) :=
  r.properties.toList.map fun p => (p, r.constraints.filter (·.property == p))

/-- The text of a resource. -/
def text (r : Resource) : String :=
  if r.constraints.isEmpty then r.model.fragment
  else r.model.fragment ++ " [" ++ ", ".intercalate (r.constraints.map (·.text)) ++ "]"

/-- Resources are ordered by model, then by constraints. -/
instance : Ord Resource := ⟨compareLex (compareOn model) (compareOn constraints)⟩

end Resource
end Muster
