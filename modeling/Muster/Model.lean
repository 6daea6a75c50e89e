/-!
Models: the names of the things a team is put together from, such as robot types, payloads,
interface types and functionalities. A name is an identifier in the manner of a web address; its
order is the order of the identifiers by code points.
-/

namespace Muster

open Std

/-- A kind of resource, given by its identifier. -/
structure Model where
  id : String
deriving DecidableEq, Inhabited

namespace Model

instance : Ord Model := ⟨compareOn Model.id⟩

instance : TransOrd Model := inferInstanceAs (TransCmp (compareOn Model.id))

instance : LawfulEqOrd Model where
  eq_of_compare {a b} h := by
    cases a; cases b
    exact congrArg Model.mk (LawfulEqOrd.eq_of_compare h)

instance : ToString Model := ⟨Model.id⟩

/-- The part of a list of characters after its last `#` or `/`, if there is such a mark. -/
def afterMark : List Char → Option (List Char)
  | [] => none
  | c :: rest =>
    match afterMark rest with
    | some tail => some tail
    | none => if c = '#' ∨ c = '/' then some rest else none

/-- The short name: what follows the last `#` or `/`, or the whole identifier if nothing does. -/
def fragment (m : Model) : String :=
  match afterMark m.id.toList with
  | none | some [] => m.id
  | some tail => String.ofList tail

end Model
end Muster
