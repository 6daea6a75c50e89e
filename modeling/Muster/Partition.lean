import Muster.Counter

/-!
Partitions of a list of items into blocks. A partition is written as a list of labels, one for each
item: items with the same label share a block, and labels are given out in order, so that a label
comes up for the first time only when all smaller ones have come up. Each partition has exactly one
such list. A cursor goes through the lists for a number of blocks in lexicographic order.
-/

namespace Muster

/-- How many labels are in use after `l` has been given, if `used` were in use before. -/
def usedAfter (used l : Nat) : Nat := Nat.max used (l + 1)

/-- The least labels for `n` more items that bring the labels in use from `used` to `blocks`. -/
def leastLabels (blocks used n : Nat) : List Nat :=
  List.replicate (n - (blocks - used)) 0 ++ List.range' used (blocks - used)

/-- The next labels in lexicographic order that bring the labels in use from `used` to `blocks`. The
last label that can grow does, and those behind it become the least ones. -/
def nextLabels (blocks : Nat) : Nat → List Nat → Option (List Nat)
  | _, [] => none
  | used, l :: rest =>
    match nextLabels blocks (usedAfter used l) rest with
    | some later => some (l :: later)
    | none =>
      let used' := usedAfter used (l + 1)
      if l + 1 ≤ used ∧ l + 1 < blocks ∧ blocks - used' ≤ rest.length then
        some ((l + 1) :: leastLabels blocks used' rest.length)
      else none

/-- A place among the partitions into `blocks` blocks: the labels of one, or the end. -/
structure PartitionCursor where
  blocks : Nat
  labels? : Option (List Nat)
deriving DecidableEq, Inhabited

namespace PartitionCursor

/-- The first partition of `n` items into `k` blocks, if there is one. -/
def start (n k : Nat) : PartitionCursor :=
  ⟨k, if k = 0 ∨ n < k then none else some (leastLabels k 0 n)⟩

/-- Whether the end is reached. -/
def isExhausted (c : PartitionCursor) : Bool := c.labels?.isNone

/-- Goes to the next partition. -/
def advance (c : PartitionCursor) : PartitionCursor :=
  { c with labels? := c.labels?.bind (nextLabels c.blocks 0) }

/-- The present partition, and the cursor past it. -/
def next? (c : PartitionCursor) : Option (List Nat × PartitionCursor) :=
  c.labels?.map fun labels => (labels, c.advance)

/-- The next partitions, `n` of them or as many as there are, and the cursor past them. -/
def take (c : PartitionCursor) : Nat → List (List Nat) × PartitionCursor
  | 0 => ([], c)
  | n + 1 =>
    match c.next? with
    | none => ([], c)
    | some (labels, rest) =>
      let (more, last) := rest.take n
      (labels :: more, last)

/-- A number that the partitions do not exceed: each item has one of the labels below `blocks`. -/
def bound (c : PartitionCursor) : Nat :=
  c.labels?.elim 0 fun labels => Nat.pow c.blocks labels.length

/-- All partitions that are left. -/
def toList (c : PartitionCursor) : List (List Nat) := (c.take c.bound).1

/-- Folds the next partitions, at most `fuel` of them, until `done` holds. -/
def foldUntil {σ : Type} (done : σ → Bool) (f : σ → List Nat → σ) :
    Nat → PartitionCursor → σ → σ
  | 0, _, s => s
  | fuel + 1, c, s =>
    if done s then s
    else
      match c.next? with
      | none => s
      | some (labels, rest) => foldUntil done f fuel rest (f s labels)

/-- Folds all partitions that are left, until `done` holds. -/
def foldWith {σ : Type} (c : PartitionCursor) (done : σ → Bool) (f : σ → List Nat → σ)
    (s : σ) : σ :=
  foldUntil done f c.bound c s

end PartitionCursor

/-- The items with label `l`. -/
def blockOf {α : Type} (items : List α) (labels : List Nat) (l : Nat) : List α :=
  ((items.zip labels).filter (·.2 == l)).map Prod.fst

/-- The blocks of items that labels describe, in the order of the labels. -/
def blocksOf {α : Type} (items : List α) (labels : List Nat) : List (List α) :=
  (List.range (labels.foldl usedAfter 0)).map (blockOf items labels)

/-- The next row of the triangle of partition numbers: it begins with the last number of `row`, and
each number after that adds the one above its neighbour to its neighbour. -/
def nextTriangleRow (row : List Nat) : List Nat := row.scanl tallyAdd (row.getLast?.getD 1)

/-- The number of partitions of `n` items, as far as 64 bits hold it. -/
def bellNumber (n : Nat) : Nat := (Nat.repeat nextTriangleRow n [1]).head?.getD 1

end Muster
