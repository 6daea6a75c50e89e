import Muster.Error
import Muster.Ordered.Map
import Muster.Reduction

/-!
Pools: how many instances of each model there are. A pool describes a fleet, a requirement, an
upper bound or a candidate team alike.

A pool may record a model with count zero. `normalized` drops such entries; `ext_count` says that
normalized pools with the same counts are equal.
-/

namespace Muster

open Std

/-- The greatest count that a pool can record. -/
def countLimit : Nat := 0xFFFFFFFF

/-- The sum of two counts, at most `countLimit`. -/
def addCounts (a b : UInt32) : UInt32 := .ofNat (Nat.min (a.toNat + b.toNat) countLimit)

theorem toNat_addCounts (a b : UInt32) :
    (addCounts a b).toNat = min (a.toNat + b.toNat) countLimit :=
  UInt32.toNat_ofNat_of_lt' (Nat.lt_succ_of_le (Nat.min_le_right _ countLimit))

/-- A number of instances for each recorded model. -/
structure Pool where
  counts : OrderedMap Model UInt32
deriving DecidableEq, Inhabited

namespace Pool

/-- The pool that records nothing. -/
def empty : Pool := ⟨.empty⟩

/-- The recorded models with their counts, in the order of the models. -/
def entries (p : Pool) : List (Model × UInt32) := p.counts.entries

/-- The count of `m`, zero if none is recorded. -/
def count (p : Pool) (m : Model) : UInt32 := (p.counts.get? m).getD 0

/-- Records `c` as the count of `m`. -/
def set (p : Pool) (m : Model) (c : UInt32) : Pool := ⟨p.counts.insert m c⟩

/-- Adds `c` to the count of `m`. -/
def add (p : Pool) (m : Model) (c : UInt32) : Pool := p.set m (addCounts (p.count m) c)

/-- Forgets `m`. -/
def erase (p : Pool) (m : Model) : Pool := ⟨p.counts.erase m⟩

/-- Collects counts; those of a repeated model add up. -/
def ofPairs (pairs : List (Model × UInt32)) : Pool := pairs.foldl (fun p e => p.add e.1 e.2) empty

/-- One instance of `m`. -/
def single (m : Model) : Pool := ofPairs [(m, 1)]

/-- The recorded models. -/
def models (p : Pool) : OrderedSet Model := p.counts.keys

/-- Whether a count of `m` is recorded, be it zero. -/
def contains (p : Pool) (m : Model) : Bool := p.counts.contains m

/-- The number of recorded models. -/
def size (p : Pool) : Nat := p.counts.size

/-- Whether nothing is recorded. -/
def isEmpty (p : Pool) : Bool := p.counts.isEmpty

/-- Whether the pool holds no instance. -/
def isNull (p : Pool) : Bool := p.entries.all (fun e => e.2 == 0)

/-- The number of instances. -/
def totalAtoms (p : Pool) : Nat := sumOf (p.entries.map fun e => e.2.toNat)

/-- The number of models with an instance. -/
def distinctModels (p : Pool) : Nat := p.entries.countP (fun e => e.2 != 0)

/-- The same instances without the entries that count zero. -/
def normalized (p : Pool) : Pool := ⟨p.counts.filter (fun _ c => c != 0)⟩

/-- The entries of the models that satisfy `keep`. -/
def restrict (keep : Model → Bool) (p : Pool) : Pool := ⟨p.counts.filter (fun m _ => keep m)⟩

/-- Whether no entry counts zero. -/
def IsNormal (p : Pool) : Prop := ∀ e ∈ p.entries, e.2 ≠ 0

/-- The text of entries, each model written by `name`. -/
def textBy (name : Model → String) (p : Pool) : String :=
  "\x7b" ++ ", ".intercalate (p.entries.map fun e => name e.1 ++ ": " ++ toString e.2) ++ "\x7d"

/-- The text of a pool, with the short names of its models. -/
def text (p : Pool) : String := p.textBy Model.fragment

/-- The text of a pool, with the identifiers of its models. -/
def fullText (p : Pool) : String := p.textBy Model.id

instance : ToString Pool := ⟨text⟩

/-- Entries are ordered by model, then by count. -/
def compareEntry : Model × UInt32 → Model × UInt32 → Ordering :=
  compareLex (compareOn Prod.fst) (compareOn Prod.snd)

instance : TransCmp compareEntry := inferInstanceAs (TransCmp (compareLex _ _))

instance : LawfulEqCmp compareEntry where
  compare_self {e} :=
    @ReflCmp.compare_self _ (compareLex (compareOn Prod.fst) (compareOn Prod.snd)) _ e
  eq_of_compare {a b} h := by
    simp only [compareEntry, compareLex_eq_eq, compareOn] at h
    exact Prod.ext (LawfulEqCmp.eq_of_compare h.1) (LawfulEqCmp.eq_of_compare h.2)

/-- Pools are ordered by their entries, one after the other. -/
instance : Ord Pool := ⟨fun p q => List.compareLex compareEntry p.entries q.entries⟩

instance : TransOrd Pool where
  eq_swap {p q} := @OrientedCmp.eq_swap _ (List.compareLex compareEntry) _ p.entries q.entries
  isLE_trans {p q r} :=
    @TransCmp.isLE_trans _ (List.compareLex compareEntry) _ p.entries q.entries r.entries

instance : LawfulEqOrd Pool where
  compare_self {p} := @ReflCmp.compare_self _ (List.compareLex compareEntry) _ p.entries
  eq_of_compare {p q} h := by
    obtain ⟨⟨es, _⟩⟩ := p
    obtain ⟨⟨fs, _⟩⟩ := q
    have : es = fs := @LawfulEqCmp.eq_of_compare _ (List.compareLex compareEntry) _ es fs h
    subst this
    rfl

end Pool

/-- A set of pools, listed in the order of the pools. -/
abbrev PoolSet := OrderedSet Pool

end Muster
