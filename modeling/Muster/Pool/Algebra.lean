import Muster.Pool.Basic
import Muster.Double.Arithmetic

/-!
Arithmetic of pools. Models that a pool does not record count as zero, and every result is
normalized.

Sum, maximum and minimum are one construction, `zipWith`, which combines counts model by model;
`count_zipWith` says so, and with `ext_count` it turns each law of pools into a law of counts.
-/

namespace Muster.Pool

open Std

/-- Combines the counts of two pools model by model; `f` should take two zeros to zero. -/
def zipWith (f : UInt32 → UInt32 → UInt32) (p q : Pool) : Pool :=
  ⟨.tabulate (p.models ∪ q.models) fun m =>
    let c := f (p.count m) (q.count m)
    if c = 0 then none else some c⟩

/-- The instances of both pools. -/
def sum (p q : Pool) : Pool := zipWith addCounts p q

/-- The instances of all pools. -/
def sumAll (ps : List Pool) : Pool := ps.foldl sum empty

/-- The larger count of each model. -/
def max (p q : Pool) : Pool := zipWith (fun a b => if a < b then b else a) p q

/-- The smaller count of each model. -/
def min (p q : Pool) : Pool := zipWith (fun a b => if b < a then b else a) p q

/-- Whether no count of `p` is above that of `q`. -/
def isSubset (p q : Pool) : Bool := p.entries.all (fun e => e.2 ≤ q.count e.1)

/-- Records an entry with its count lowered to that of `bound`, which has to have an instance. -/
def recordWithin (bound p : Pool) (e : Model × UInt32) : Option Pool :=
  let limit := bound.count e.1
  if limit = 0 then none else some (p.set e.1 (if limit < e.2 then limit else e.2))

/-- Lowers each count to that of `bound`, unless a model with an instance has none in `bound`. -/
def bounded (p bound : Pool) : Option Pool :=
  p.normalized.entries.foldlM (recordWithin bound) empty

/-- A count times a factor, rounded up. -/
def scaleCount (factor : Double) (c : UInt32) : UInt32 :=
  .ofNat ((Double.ofNat c.toNat * factor).ceil.toNatUpTo countLimit)

/-- Every count times a factor, rounded up to whole instances. A factor that is not a positive
number leaves nothing. -/
def multiply (p : Pool) (factor : Double) : Pool :=
  if !factor.isFinite || factor ≤ 0 then empty
  else ⟨p.normalized.counts.mapValues (scaleCount factor)⟩

/-- The bounded forms of the pools of a set; pools that have none or hold nothing are dropped. -/
def boundAll (ps : PoolSet) (bound : Pool) : PoolSet :=
  ps.filterMap fun p => (p.bounded bound).filter (!·.isEmpty)

/-- The maxima of all pairs of pools from two sets; an empty set leaves the other as it is. -/
def maxCompositions (ps qs : PoolSet) : PoolSet :=
  if ps.isEmpty then qs
  else if qs.isEmpty then ps
  else .ofList (ps.toList.flatMap fun p => qs.toList.map (max p))

@[simp] theorem count_empty (m : Model) : empty.count m = 0 := rfl

@[simp] theorem count_set (p : Pool) (m n : Model) (c : UInt32) :
    (p.set m c).count n = if n = m then c else p.count n := by
  simp only [count, set, OrderedMap.get?_insert]
  split <;> rfl

@[simp] theorem count_add (p : Pool) (m n : Model) (c : UInt32) :
    (p.add m c).count n = if n = m then addCounts (p.count m) c else p.count n :=
  count_set ..

@[simp] theorem count_normalized (p : Pool) (m : Model) : p.normalized.count m = p.count m := by
  simp only [count, normalized, OrderedMap.get?_filter]
  cases h : p.counts.get? m with
  | none => rfl
  | some c => by_cases hc : c = 0 <;> simp [Option.filter, hc]

theorem isNormal_normalized (p : Pool) : p.normalized.IsNormal := fun _ he =>
  bne_iff_ne.1 (List.mem_filter.1 he).2

theorem mem_models_of_count_ne_zero {p : Pool} {m : Model} (h : p.count m ≠ 0) :
    m ∈ p.models := by
  refine OrderedMap.mem_keys.2 ?_
  cases hm : p.counts.get? m with
  | none => simp [count, hm] at h
  | some _ => rfl

theorem count_zipWith {f : UInt32 → UInt32 → UInt32} (hf : f 0 0 = 0) (p q : Pool) (m : Model) :
    (zipWith f p q).count m = f (p.count m) (q.count m) := by
  simp only [count, zipWith, OrderedMap.get?_tabulate, OrderedSet.mem_union]
  by_cases hp : p.count m = 0 ∧ q.count m = 0
  · simp only [count] at hp
    simp [hp.1, hp.2, hf]
  · have : m ∈ p.models ∨ m ∈ q.models := by
      rcases Classical.not_and_iff_not_or_not.1 hp with h | h
      · exact .inl (mem_models_of_count_ne_zero h)
      · exact .inr (mem_models_of_count_ne_zero h)
    rw [if_pos this]
    by_cases h : f (p.count m) (q.count m) = 0 <;> simp only [count] at h <;> simp [h]

theorem isNormal_zipWith (f : UInt32 → UInt32 → UInt32) (p q : Pool) :
    (zipWith f p q).IsNormal := by
  intro e he
  have := OrderedMap.get?_eq_some_iff.2 he
  simp only [zipWith, OrderedMap.get?_tabulate] at this
  split at this
  · split at this
    · cases this
    · rename_i h
      exact Option.some.inj this ▸ h
  · cases this

/-- Normalized pools with the same counts are equal. -/
theorem ext_count {p q : Pool} (hp : p.IsNormal) (hq : q.IsNormal)
    (h : ∀ m, p.count m = q.count m) : p = q := by
  obtain ⟨p⟩ := p
  obtain ⟨q⟩ := q
  refine congrArg Pool.mk (OrderedMap.ext_get? fun m => ?_)
  have hm := h m
  simp only [count] at hm
  cases hpm : p.get? m with
  | none =>
    cases hqm : q.get? m with
    | none => rfl
    | some d =>
      rw [hpm, hqm] at hm
      exact absurd hm.symm (hq (m, d) (OrderedMap.get?_eq_some_iff.1 hqm))
  | some c =>
    cases hqm : q.get? m with
    | none =>
      rw [hpm, hqm] at hm
      exact absurd hm (hp (m, c) (OrderedMap.get?_eq_some_iff.1 hpm))
    | some d =>
      rw [hpm, hqm] at hm
      exact congrArg some hm

end Muster.Pool
