/-!
Positions in the numbered lists of a wiring problem. The type of a position says which list it
belongs to, so that an endpoint is never taken for an instance.
-/

namespace Muster

/-- The numbered lists of a wiring problem. -/
inductive IndexSpace where
  | instances
  | endpoints
  | endpointTypes
deriving DecidableEq, Inhabited

/-- The name of a position in a list. -/
def IndexSpace.name : IndexSpace → String
  | .instances => "InstanceIndex"
  | .endpoints => "InterfaceIndex"
  | .endpointTypes => "InterfaceTypeIndex"

/-- The text of position `n` of a list. -/
def IndexSpace.label (space : IndexSpace) (n : Nat) : String :=
  space.name ++ "(" ++ toString n ++ ")"

/-- A position in a list. -/
structure Index (space : IndexSpace) where
  position : Nat
deriving DecidableEq, Inhabited

namespace Index

variable {space : IndexSpace}

instance : Ord (Index space) := ⟨compareOn position⟩
instance : ToString (Index space) := ⟨fun i => space.label i.position⟩

/-- The next position. -/
def next (i : Index space) : Index space := ⟨i.position + 1⟩

/-- The first `len` positions. -/
def range (len : Nat) : List (Index space) := (List.range len).map Index.mk

end Index
end Muster
