/-!
Combining the members of a list from left to right.
-/

namespace Muster

/-- The first member combined with each later one in turn, if there is a member. -/
def reduce? {α : Type} (f : α → α → α) : List α → Option α
  | [] => none
  | a :: rest => some (rest.foldl f a)

/-- The sum of the members. -/
def sumOf (ns : List Nat) : Nat := ns.foldr (· + ·) 0

/-- The product of the members. -/
def productOf (ns : List Nat) : Nat := ns.foldr (· * ·) 1

end Muster
