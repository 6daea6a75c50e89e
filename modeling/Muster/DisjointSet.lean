/-!
Disjoint sets whose unions can be taken back. Every element points to a parent, and the roots stand
for the sets. A union hangs the root of the smaller set below the root of the larger one and is
noted down; since nothing else moves, taking back the last union restores the forest as it was.
-/

namespace Muster

/-- A union: `child` was a root and was hung below the root `parent`. -/
structure UnionRecord where
  child : Nat
  parent : Nat
deriving DecidableEq, Inhabited

/-- A partition of the numbers below `parent.size`, with the unions that made it, the last one
first. `size` is right at the roots. -/
structure DisjointSet where
  parent : Array Nat
  size : Array Nat
  components : Nat
  history : List UnionRecord
deriving DecidableEq, Inhabited

namespace DisjointSet

/-- Every element by itself. -/
def singletons (n : Nat) : DisjointSet where
  parent := Array.range n
  size := Array.replicate n 1
  components := n
  history := []

/-- The number of elements. -/
def length (s : DisjointSet) : Nat := s.parent.size

/-- Follows parents from `x` until a root is reached, at most `fuel` times. -/
def climb (parent : Array Nat) : Nat → Nat → Nat
  | 0, x => x
  | fuel + 1, x =>
    let p := parent.getD x x
    if p = x then x else climb parent fuel p

/-- The root of the set of `x`. No path is longer than there are elements. -/
def find (s : DisjointSet) (x : Nat) : Nat := climb s.parent s.length x

/-- Whether `a` and `b` are in one set. -/
def same (s : DisjointSet) (a b : Nat) : Bool := s.find a == s.find b

/-- The number of elements in the set of `x`. -/
def sizeOf (s : DisjointSet) (x : Nat) : Nat := s.size.getD (s.find x) 0

/-- Hangs the root `child` below the root `parent`. -/
def attach (s : DisjointSet) (child parent : Nat) : DisjointSet where
  parent := s.parent.setIfInBounds child parent
  size := s.size.setIfInBounds parent (s.size.getD parent 0 + s.size.getD child 0)
  components := s.components - 1
  history := ⟨child, parent⟩ :: s.history

/-- Merges the sets of `a` and `b`. The answer says whether there was anything to merge. -/
def union (s : DisjointSet) (a b : Nat) : Bool × DisjointSet :=
  let ra := s.find a
  let rb := s.find b
  if ra = rb then (false, s)
  else if s.size.getD ra 0 < s.size.getD rb 0 then (true, s.attach ra rb)
  else (true, s.attach rb ra)

/-- A mark to roll back to. -/
def checkpoint (s : DisjointSet) : Nat := s.history.length

/-- Takes back the last union. The answer says whether there was one. -/
def undoLast (s : DisjointSet) : Bool × DisjointSet :=
  match s.history with
  | [] => (false, s)
  | u :: earlier =>
    (true, {
      parent := s.parent.setIfInBounds u.child u.child
      size := s.size.setIfInBounds u.parent (s.size.getD u.parent 0 - s.size.getD u.child 0)
      components := s.components + 1
      history := earlier })

/-- Takes back the last `n` unions. -/
def undoMany (s : DisjointSet) : Nat → DisjointSet
  | 0 => s
  | n + 1 => s.undoLast.2.undoMany n

/-- Takes back every union made since `mark` was taken. -/
def rollbackTo (s : DisjointSet) (mark : Nat) : DisjointSet :=
  s.undoMany (s.history.length - mark)

/-- The sets, each ascending, in the order of their smallest elements. -/
def groups (s : DisjointSet) : List (List Nat) :=
  let elements := List.range s.length
  (elements.map s.find).eraseDups.map fun root => elements.filter (fun x => s.find x == root)

end DisjointSet
end Muster
