/-!
A repeatable stream of 64-bit words, drawn from a seed: the ChaCha block function with eight rounds
over a counter, under a key that a permuted congruential generator spreads from the seed.
-/

namespace Muster

/-- A place in the stream of one key: the words that are ready, and the number of the next block. -/
structure Keystream where
  key : Array UInt32
  counter : UInt64
  ready : List UInt64
deriving DecidableEq, Inhabited

namespace Keystream

def rotateLeft (x : UInt32) (n : UInt32) : UInt32 := (x <<< n) ||| (x >>> (32 - n))

def rotateRight (x : UInt32) (n : UInt32) : UInt32 := rotateLeft x ((32 - n) % 32)

/-- The next state of the seed generator. -/
def spread (s : UInt64) : UInt64 := s * 6364136223846793005 + 11634580027462260723

/-- The word that a state of the seed generator gives. -/
def seedWord (s : UInt64) : UInt32 :=
  rotateRight (((s >>> 18) ^^^ s) >>> 27).toUInt32 (s >>> 59).toUInt32

/-- The key of a seed: the words of eight states in turn. -/
def keyOf (seed : UInt64) : Array UInt32 :=
  ((List.range 8).foldl (fun (s, key) _ =>
    let s := spread s
    (s, key.push (seedWord s))) (seed, #[])).2

/-- The word at a place of the block. -/
def word (b : Array UInt32) (i : Nat) : UInt32 := b.getD i 0

/-- Mixes four words of the block. -/
def quarterRound (b : Array UInt32) (i j k l : Nat) : Array UInt32 :=
  let a := word b i + word b j
  let d := rotateLeft (word b l ^^^ a) 16
  let c := word b k + d
  let b' := rotateLeft (word b j ^^^ c) 12
  let a := a + b'
  let d := rotateLeft (d ^^^ a) 8
  let c := c + d
  let b' := rotateLeft (b' ^^^ c) 7
  (((b.setIfInBounds i a).setIfInBounds j b').setIfInBounds k c).setIfInBounds l d

/-- The four words mixed at a time: the columns, then the diagonals. -/
def quarters : List (Nat × Nat × Nat × Nat) :=
  [(0, 4, 8, 12), (1, 5, 9, 13), (2, 6, 10, 14), (3, 7, 11, 15),
   (0, 5, 10, 15), (1, 6, 11, 12), (2, 7, 8, 13), (3, 4, 9, 14)]

/-- Two rounds. -/
def doubleRound (b : Array UInt32) : Array UInt32 :=
  quarters.foldl (fun b (i, j, k, l) => quarterRound b i j k l) b

/-- The block before mixing: four constants, the key, the counter and two zeros. -/
def start (key : Array UInt32) (counter : UInt64) : Array UInt32 :=
  let constants : Array UInt32 := #[0x61707865, 0x3320646E, 0x79622D32, 0x6B206574]
  constants ++ key ++ #[counter.toUInt32, (counter >>> 32).toUInt32, 0, 0]

/-- The block of a counter. -/
def block (key : Array UInt32) (counter : UInt64) : Array UInt32 :=
  let before := start key counter
  let mixed := (List.range 4).foldl (fun b _ => doubleRound b) before
  Array.zipWith (· + ·) before mixed

/-- The words of a block in pairs, the low half first. -/
def pairs (b : Array UInt32) : List UInt64 :=
  (List.range 8).map fun i => (word b (2 * i)).toUInt64 ||| ((word b (2 * i + 1)).toUInt64 <<< 32)

/-- The stream of a seed, at its start. -/
def ofSeed (seed : UInt64) : Keystream := ⟨keyOf seed, 0, []⟩

/-- The next word, and the stream past it. -/
def next (s : Keystream) : UInt64 × Keystream :=
  match s.ready with
  | w :: rest => (w, { s with ready := rest })
  | [] =>
    let ws := pairs (block s.key s.counter)
    (ws.headD 0, { s with counter := s.counter + 1, ready := ws.tail })

/-- One word for each member of a list, in order, and the stream past them. -/
def label {α : Type} (s : Keystream) : List α → List (UInt64 × α) × Keystream
  | [] => ([], s)
  | a :: rest =>
    let (w, s) := s.next
    let (labelled, s) := s.label rest
    ((w, a) :: labelled, s)

end Keystream
end Muster
