import Muster.Keystream
import Muster.Wiring.Choice

/-!
Branchers pick the endpoint to decide next and put its choices in order. The choices are listed in
the order they go on a stack, so the last one is tried first.
-/

namespace Muster

/-- How choices are put in order. -/
inductive Branching where
  /-- The largest components first, ties broken at random. -/
  | merit
  /-- In the order of the endpoints. -/
  | lexicographic
deriving DecidableEq, Inhabited

/-- The word for an order. -/
def Branching.text : Branching → String
  | merit => "Merit"
  | lexicographic => "Lexicographic"

/-- A brancher; the one by merit draws from a stream of random words. -/
inductive Brancher where
  | lexicographic
  | merit (seed : UInt64) (stream : Keystream)
deriving DecidableEq, Inhabited

namespace Brancher

/-- The brancher of an order, at the start of the stream of a seed. -/
def start (seed : UInt64) : Branching → Brancher
  | .lexicographic => lexicographic
  | .merit => merit seed (.ofSeed seed)

/-- Goes back to the start of the stream. -/
def reseed : Brancher → Brancher
  | lexicographic => lexicographic
  | merit seed _ => merit seed (.ofSeed seed)

/-- The name of a brancher. -/
def name : Brancher → String
  | lexicographic => "LexicographicBuilder"
  | merit _ _ => "MeritBuilder"

/-- A partner with the size of the component that wiring it makes, and a random word. -/
structure ScoredPartner where
  size : Nat
  word : UInt64
  partner : Nat
deriving DecidableEq, Inhabited

namespace ScoredPartner

/-- Whether `a` comes before `b`: by size, then by word, then by partner. -/
def before (a b : ScoredPartner) : Bool :=
  (compareLex (compareOn size) (compareLex (compareOn word) (compareOn partner)) a b).isLE

end ScoredPartner

/-- Every choice at an endpoint: to leave it unconnected, and to wire it to each partner. -/
def choicesAt (e : Nat) (partners : List Nat) : List Choice :=
  ⟨e, none⟩ :: partners.map fun f => ⟨e, some f⟩

/-- The next choices, and the brancher past them; no choice if no endpoint can be wired. -/
def branch (b : Brancher) (p : WiringProblem) (w : PartialWiring) : List Choice × Brancher :=
  match b with
  | lexicographic =>
    match w.firstEndpoint p with
    | none => ([], b)
    | some e => (choicesAt e (w.representatives p e).reverse, b)
  | merit seed stream =>
    match w.mostUrgentEndpoint p with
    | none => ([], b)
    | some e =>
      let (labelled, stream) := stream.label (w.representatives p e)
      let size := fun f => w.componentSize (p.ownerOf e) + w.componentSize (p.ownerOf f)
      let scored := labelled.map fun (word, f) => (⟨size f, word, f⟩ : ScoredPartner)
      let ordered := scored.mergeSort ScoredPartner.before
      (choicesAt e (ordered.map ScoredPartner.partner), merit seed stream)

end Brancher
end Muster
