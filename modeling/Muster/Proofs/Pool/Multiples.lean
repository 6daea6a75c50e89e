import Muster.Proofs.Double.Whole
import Muster.Proofs.Pool.Counts

/-!
Multiples of pools. A count times a whole factor is exact as long as it has at most 53 bits, and
what has more is far past the largest count that a pool can record. So a pool taken a whole number
of times holds the exact multiples, cut off at that count, and this is what so many copies of the
pool add up to one after the other, as a sum that is cut off once stays at the largest count.

Main statements: `count_mapCounts`, `toNat_scaleCount`, `multiply_ofNat`, `multiply_eq_sumAll`.
-/

namespace Muster.Pool

variable {p s : Pool} {m : Model} {k : Nat}

/-! ### Changed counts -/

/-- A pool with its counts changed one by one. -/
def mapCounts (f : UInt32 → UInt32) (p : Pool) : Pool := ⟨p.normalized.counts.mapValues f⟩

theorem entries_mapCounts (f : UInt32 → UInt32) (p : Pool) :
    (p.mapCounts f).entries = p.normalized.entries.map fun e => (e.1, f e.2) := rfl

theorem count_mapCounts (f : UInt32 → UInt32) (p : Pool) (m : Model) :
    (p.mapCounts f).count m = if p.count m = 0 then 0 else f (p.count m) := by
  have hcount := count_normalized p m
  rw [count, mapCounts, OrderedMap.get?_mapValues]
  rw [count] at hcount
  cases hm : p.normalized.counts.get? m with
  | none =>
    rw [hm] at hcount
    rw [← hcount]
    rfl
  | some c =>
    rw [hm] at hcount
    have hne : c ≠ 0 := isNormal_iff.1 (isNormal_normalized p) m c hm
    rw [← hcount]
    exact (if_neg hne).symm

theorem isNormal_mapCounts {f : UInt32 → UInt32} (hf : ∀ e ∈ p.normalized.entries, f e.2 ≠ 0) :
    (p.mapCounts f).IsNormal := by
  intro e he
  rw [entries_mapCounts] at he
  obtain ⟨d, hd, rfl⟩ := List.mem_map.1 he
  exact hf d hd

/-! ### Whole factors -/

theorem toNat_scaleCount {c : UInt32} (hc : c ≠ 0) :
    (scaleCount (.ofNat k) c).toNat = Nat.min (k * c.toNat) countLimit := by
  have hlimit : countLimit < 2 ^ 32 := by decide
  rw [scaleCount, Double.toNatUpTo_ceil_mul (by decide) (toNat_pos hc) (toNat_lt_exact c)]
  exact UInt32.toNat_ofNat_of_lt' (lt_of_le_of_lt (Nat.min_le_right ..) hlimit)

/-- Counts that are multiplied are cut off at the largest one, and none becomes zero. -/
theorem count_mapCounts_scaleCount (hk : 0 < k) (s : Pool) :
    (s.mapCounts (scaleCount (.ofNat k))).IsNormal ∧
      ∀ a, ((s.mapCounts (scaleCount (.ofNat k))).count a).toNat =
        Nat.min (k * (s.count a).toNat) countLimit := by
  refine ⟨isNormal_mapCounts fun e he hzero => ?_, fun a => ?_⟩
  · have hne := isNormal_normalized s e he
    have hpos := Nat.mul_pos hk (toNat_pos hne)
    have hscaled := toNat_scaleCount (k := k) hne
    rw [hzero, UInt32.toNat_zero, eq_comm, Nat.min_eq_zero_iff] at hscaled
    exact hscaled.elim hpos.ne' (by decide)
  · rw [count_mapCounts]
    split
    · rename_i hzero
      rw [hzero, UInt32.toNat_zero, Nat.mul_zero]
      exact (Nat.zero_min _).symm
    · rename_i hne
      exact toNat_scaleCount hne

/-- A pool taken a whole number of times holds so many times its counts, up to the largest count. -/
theorem count_multiply (hk : 0 < k) (hsome : (s.multiply (.ofNat k)).isEmpty = false) :
    (s.multiply (.ofNat k)).IsNormal ∧ ∀ a, ((s.multiply (.ofNat k)).count a).toNat =
      Nat.min (k * (s.count a).toNat) countLimit := by
  rw [multiply] at hsome ⊢
  split at hsome
  · exact absurd hsome (by decide)
  · rename_i hfactor
    rw [if_neg hfactor]
    exact count_mapCounts_scaleCount hk s

/-- A whole factor that is not too large to be told multiplies every count. -/
theorem multiply_ofNat (hk : 0 < k) (hk' : k < 2 ^ 53) :
    s.multiply (.ofNat k) = s.mapCounts (scaleCount (.ofNat k)) := by
  have hfinite := (Double.isWhole_ofNat hk').isFinite
  have hpos : ¬ (Double.ofNat k ≤ 0) := by
    rw [(Double.isAmount_ofNat k).le_iff Double.isAmount_zero, Double.amount_zero, Nat.not_le]
    exact Double.amount_ofNat_pos hk
  have hfactor : (!(Double.ofNat k).isFinite || decide (Double.ofNat k ≤ 0)) = false := by
    rw [hfinite, decide_eq_false hpos]
    rfl
  rw [multiply, hfactor, if_neg Bool.false_ne_true]
  rfl

/-- Nothing is left of a pool with instances only if it is taken too often to be told. -/
theorem isEmpty_multiply (hk : 0 < k) (hk' : k < 2 ^ 53) (hs : s.IsNormal)
    (hsome : s.isEmpty = false) : (s.multiply (.ofNat k)).isEmpty = false := by
  rw [multiply_ofNat hk hk']
  show (s.mapCounts (scaleCount (.ofNat k))).entries.isEmpty = false
  rw [entries_mapCounts, List.isEmpty_map, hs.normalized_eq]
  exact hsome

theorem multiply_zero (s : Pool) : s.multiply (.ofNat 0) = empty := by
  have hle : Double.ofNat 0 ≤ 0 :=
    ((Double.isAmount_ofNat 0).le_iff Double.isAmount_zero).2 (Nat.le_refl _)
  rw [multiply, decide_eq_true hle, Bool.or_true, if_pos rfl]

/-! ### Repeated sums -/

/-- A pool taken a whole number of times is what so many copies of it add up to: each count is
multiplied exactly, and cut off at the largest count that a pool can record. -/
theorem multiply_eq_sumAll (p : Pool) (hk : k < 2 ^ 53) :
    p.multiply (.ofNat k) = sumAll (List.replicate k p) ∧
      ∀ m, ((sumAll (List.replicate k p)).count m).toNat =
        Min.min (k * (p.count m).toNat) countLimit := by
  have hsum : ∀ m, ((sumAll (List.replicate k p)).count m).toNat =
      Min.min (k * (p.count m).toNat) countLimit := fun m => by
    rw [toNat_count_sumAll, List.map_replicate, List.sum_replicate, smul_eq_mul]
  refine ⟨?_, hsum⟩
  rcases Nat.eq_zero_or_pos k with rfl | hpos
  · exact multiply_zero p
  · obtain ⟨hnormal, hcount⟩ := count_mapCounts_scaleCount hpos p
    rw [multiply_ofNat hpos hk]
    refine ext_count hnormal (isNormal_sumAll _) fun m => UInt32.toNat_inj.1 ?_
    rw [hcount, hsum]

/-- Three times a pool with a drone entry that counts zero, and with so many docks that three times
as many cannot be recorded. -/
theorem multiply_eq_sumAll_three :
    let p := ofPairs [(⟨"Dock"⟩, 0x80000000), (⟨"Drone"⟩, 0), (⟨"Rover"⟩, 2)]
    3 < 2 ^ 53 ∧ p.multiply (.ofNat 3) = sumAll [p, p, p] ∧
      sumAll [p, p, p] = ofPairs [(⟨"Dock"⟩, 0xFFFFFFFF), (⟨"Rover"⟩, 6)] := by
  have hk : 3 < 2 ^ 53 := by decide
  exact ⟨hk, (multiply_eq_sumAll _ hk).1, by decide +kernel⟩

end Muster.Pool
