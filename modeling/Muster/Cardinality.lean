import Muster.Pool.Basic
import Muster.Reduction

/-!
How many resources of one class a model owns or needs. Models state this by restrictions such as
"has at least 1 Camera"; `bounds` collapses the restrictions of one model into an interval for each
class, and `join` combines the intervals of several models.
-/

namespace Muster

open Std

/-- How a restriction limits a number. -/
inductive CardinalityKind where
  | min
  | max
  | exact
deriving DecidableEq, Inhabited

namespace CardinalityKind

/-- The place of a kind in the order of restrictions. -/
def rank : CardinalityKind → Nat
  | min => 0
  | max => 1
  | exact => 2

/-- The word for a kind. -/
def text : CardinalityKind → String
  | min => "min"
  | max => "max"
  | exact => "exactly"

end CardinalityKind

/-- A limit on how many resources of the class `qualification` a model is related to. -/
structure CardinalityRestriction where
  relation : Model
  qualification : Model
  cardinality : UInt32
  kind : CardinalityKind
deriving DecidableEq, Inhabited

namespace CardinalityRestriction

/-- The text of a restriction. -/
def text (r : CardinalityRestriction) : String :=
  " ".intercalate
    [r.relation.fragment, r.kind.text, toString r.cardinality, r.qualification.fragment]

/-- Restrictions are ordered by relation, class, number and kind. -/
instance : Ord CardinalityRestriction :=
  ⟨compareLex (compareOn relation) (compareLex (compareOn qualification)
    (compareLex (compareOn cardinality) (compareOn fun r => r.kind.rank)))⟩

end CardinalityRestriction

/-- An interval of numbers. -/
structure CardinalityBound where
  min : UInt32
  max : UInt32
deriving DecidableEq, Inhabited

/-- How the intervals of two models combine. -/
inductive JoinOperation where
  /-- Numbers add up, as for the members of one pool. -/
  | sum
  /-- The larger number counts, as for requirements that the same resources serve. -/
  | max
deriving DecidableEq, Inhabited

/-- The combination of two numbers. -/
def JoinOperation.apply : JoinOperation → UInt32 → UInt32 → UInt32
  | sum, a, b => addCounts a b
  | max, a, b => if a < b then b else a

/-- An interval for each class. -/
abbrev BoundMap := OrderedMap Model CardinalityBound

namespace CardinalityBound

/-- The upper end if offers are counted, the lower end if needs are. -/
def pick (b : CardinalityBound) (offered : Bool) : UInt32 := if offered then b.max else b.min

/-- What a restriction states as a lower limit. -/
def lowerOf (r : CardinalityRestriction) : Option UInt32 :=
  match r.kind with
  | .max => none
  | _ => some r.cardinality

/-- What a restriction states as an upper limit. -/
def upperOf (r : CardinalityRestriction) : Option UInt32 :=
  match r.kind with
  | .min => none
  | _ => some r.cardinality

/-- The largest of some numbers. -/
def largest? (ns : List UInt32) : Option UInt32 := reduce? (fun a b => if a < b then b else a) ns

/-- The smallest of some numbers. -/
def smallest? (ns : List UInt32) : Option UInt32 := reduce? (fun a b => if b < a then b else a) ns

/-- The interval that restrictions on one class leave: the largest lower limit, zero if there is
none, up to the smallest upper limit, or up to the lower end if there is no larger one. -/
def ofRestrictions (rs : List CardinalityRestriction) : CardinalityBound :=
  let low := (largest? (rs.filterMap lowerOf)).getD 0
  let high := (smallest? (rs.filterMap upperOf)).getD low
  ⟨low, if high < low then low else high⟩

end CardinalityBound

namespace BoundMap

/-- The intervals that the restrictions of one model leave. -/
def ofRestrictions (rs : List CardinalityRestriction) : BoundMap :=
  .tabulate (.ofList (rs.map (·.qualification))) fun q =>
    some (.ofRestrictions (rs.filter (·.qualification == q)))

/-- Combines the intervals of each class; a missing one counts as zero. -/
def join (op : JoinOperation) (a b : BoundMap) : BoundMap :=
  .tabulate (a.keys ∪ b.keys) fun q =>
    let x := (a.get? q).getD ⟨0, 0⟩
    let y := (b.get? q).getD ⟨0, 0⟩
    some ⟨op.apply x.min y.min, op.apply x.max y.max⟩

end BoundMap
end Muster
