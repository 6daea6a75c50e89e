import Mathlib.Tactic
import Muster.Pool.Delta
import Muster.Proofs.Pool.Counts

/-!
Differences of pools by their counts. A difference is negative just if some model lacks instances,
and as a pool it keeps the models that have some to spare. So what `p` has beyond `q`, put on top of
`q`, gives the maximum of both. What is put on top of a pool can be taken off again, as long as no
count is stopped by the limit.

Main statements: `isNegative_between_eq_false_iff`, `toNat_count_toPool`, `sum_toPool_between`,
`toPool_between_sum_eq_iff`.
-/

namespace Muster

namespace PoolDelta

variable {d : PoolDelta} {p q : Pool} {m : Model}

theorem isNegative_iff : d.isNegative = true ↔ ∃ m, d.get m < 0 := by
  rw [isNegative, List.any_eq_true]
  constructor
  · rintro ⟨x, hx, hneg⟩
    obtain ⟨⟨m, y⟩, he, rfl⟩ := List.mem_map.1 hx
    refine ⟨m, ?_⟩
    rw [get, OrderedMap.get?_eq_some_iff.2 he]
    exact of_decide_eq_true hneg
  · rintro ⟨m, hneg⟩
    cases hm : d.differences.get? m with
    | none =>
      rw [get, hm] at hneg
      exact absurd hneg (Int.lt_irrefl 0)
    | some x =>
      rw [get, hm] at hneg
      exact ⟨x, List.mem_map_of_mem (OrderedMap.get?_eq_some_iff.1 hm), decide_eq_true hneg⟩

/-- A difference is not negative just if no count is below the one that it is compared with. -/
theorem isNegative_between_eq_false_iff :
    (between p q).isNegative = false ↔ q.isSubset p = true := by
  rw [Bool.eq_false_iff, Ne, isNegative_iff, Pool.isSubset_iff]
  push Not
  refine forall_congr' fun m => ?_
  rw [get_between, UInt32.le_iff_toNat_le]
  omega

/-- As a pool, a difference keeps what is positive, as far as a pool can record it. -/
theorem toNat_count_toPool (d : PoolDelta) (m : Model) :
    (d.toPool.count m).toNat = min (d.get m).toNat countLimit := by
  rw [Pool.count, toPool, OrderedMap.get?_tabulate]
  by_cases hm : m ∈ d.differences.keys
  · rw [if_pos hm]
    by_cases hpos : 0 < d.get m
    · simp only [if_pos hpos, Option.getD_some]
      exact UInt32.toNat_ofNat_of_lt' (Nat.lt_succ_of_le (Nat.min_le_right _ countLimit))
    · simp only [if_neg hpos, Option.getD_none, UInt32.toNat_zero]
      omega
  · have hnone : d.differences.get? m = none := by
      rwa [OrderedMap.mem_keys, Option.not_isSome_iff_eq_none] at hm
    rw [if_neg hm, get, hnone]
    rfl

theorem isNormal_toPool (d : PoolDelta) : d.toPool.IsNormal := by
  rw [Pool.isNormal_iff]
  rintro m _ hc rfl
  have hzero := toNat_count_toPool d m
  rw [Pool.count, hc, Option.getD_some, UInt32.toNat_zero, countLimit] at hzero
  have hpos : ¬0 < d.get m := by omega
  rw [toPool, OrderedMap.get?_tabulate] at hc
  split at hc
  · simp only [if_neg hpos, reduceCtorEq] at hc
  · exact absurd hc (by simp)

theorem toNat_count_toPool_between (p q : Pool) (m : Model) :
    ((between p q).toPool.count m).toNat = (p.count m).toNat - (q.count m).toNat := by
  have hlt := (p.count m).toNat_lt
  rw [toNat_count_toPool, get_between, countLimit]
  omega

end PoolDelta

namespace Pool

open PoolDelta

/-- What one pool has beyond another, put on top of that one, gives the maximum of both. -/
theorem sum_toPool_between (p q : Pool) : q.sum (between p q).toPool = p.max q := by
  refine ext_count (isNormal_zipWith _ _ _) (isNormal_zipWith _ _ _) fun m => ?_
  have hp := (p.count m).toNat_lt
  have hq := (q.count m).toNat_lt
  refine UInt32.toNat_inj.1 ?_
  rw [toNat_count_sum, toNat_count_toPool_between, toNat_count_max, countLimit]
  omega

theorem isSubset_sum_right (p q : Pool) : q.isSubset (p.sum q) = true := by
  rw [isSubset_iff]
  intro m
  have hq := (q.count m).toNat_lt
  rw [UInt32.le_iff_toNat_le, toNat_count_sum, countLimit]
  omega

/-- What is put on top of a pool can be taken off again just if no count is stopped by the limit. -/
theorem toPool_between_sum_eq_iff (p q : Pool) :
    (between (p.sum q) q).toPool = p.normalized ↔
      ∀ m, (p.count m).toNat + (q.count m).toNat ≤ countLimit := by
  have hback : ∀ m, ((between (p.sum q) q).toPool.count m).toNat =
      Min.min ((p.count m).toNat + (q.count m).toNat) countLimit - (q.count m).toNat := fun m => by
    rw [toNat_count_toPool_between, toNat_count_sum]
  constructor
  · intro h m
    have hm := hback m
    have hq := (q.count m).toNat_lt
    rw [h, count_normalized] at hm
    rw [countLimit] at hm ⊢
    omega
  · intro h
    refine ext_count (isNormal_toPool _) (isNormal_normalized p) fun m => UInt32.toNat_inj.1 ?_
    have hm := h m
    rw [hback, count_normalized]
    omega

/-- Differences of pools undo sums: what `p` has beyond `q` raises `q` to the maximum of both, and
`q` can be taken from the sum of both without anything missing, which leaves the instances of `p`
just if no model has more instances in both pools together than a pool can record. -/
theorem between_undoes_sum (p q : Pool) :
    q.sum (between p q).toPool = p.max q ∧
    (between (p.sum q) q).isNegative = false ∧
    ((between (p.sum q) q).toPool = p.normalized ↔
      ∀ m, (p.count m).toNat + (q.count m).toNat ≤ countLimit) :=
  ⟨sum_toPool_between p q, isNegative_between_eq_false_iff.2 (isSubset_sum_right p q),
    toPool_between_sum_eq_iff p q⟩

/-- A rover beyond the limit is not recorded, so one is missing when it is taken off. -/
example : let p := ofPairs [(⟨"Rover"⟩, 0xFFFFFFFF)]
    let q := ofPairs [(⟨"Dock"⟩, 0), (⟨"Rover"⟩, 1)]
    (between (p.sum q) q).toPool = ofPairs [(⟨"Rover"⟩, 0xFFFFFFFE)] := by
  decide +kernel

end Pool
end Muster
