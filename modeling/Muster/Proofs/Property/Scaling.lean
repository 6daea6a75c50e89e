import Muster.Proofs.Pool.Multiples
import Muster.Property.Scaling

/-!
Scaling. A factor starts at one and is only ever raised to whole numbers, so if there is a factor it
is whole, and it was confirmed for every constrained property. What is confirmed is the factor times
the value of the pool. If the values are whole numbers that are small enough, this is the value of
the pool taken that many times.

Main statements: `scalingFactor_spec`, `contains_propertyValue`.
-/

namespace Muster

theorem exists_of_bind_eq_ok {ε α β : Type} {x : Except ε α} {f : α → Except ε β} {b : β}
    (h : x >>= f = .ok b) : ∃ a, x = .ok a ∧ f a = .ok b := by
  cases x with
  | error e => exact absurd h (by simp [bind, Except.bind])
  | ok a => exact ⟨a, rfl, h⟩

theorem sumOf_map_mul (k : Nat) (ns : List Nat) : sumOf (ns.map (k * ·)) = k * sumOf ns := by
  induction ns with
  | nil => rfl
  | cons n ns ih =>
    rw [List.map_cons, sumOf, sumOf, List.foldr_cons, List.foldr_cons, ← sumOf, ← sumOf, ih,
      Nat.mul_add]

/-- A sum of 64 bits is what the exact sum leaves. -/
theorem toNat_foldl_add {α : Type} (f : α → UInt64) : ∀ (xs : List α) (a : UInt64),
    (xs.foldl (fun sum x => sum + f x) a).toNat =
      (a.toNat + sumOf (xs.map fun x => (f x).toNat)) % 2 ^ 64
  | [], a => (Nat.mod_eq_of_lt a.toNat_lt).symm
  | x :: xs, a => by
    rw [List.foldl_cons, toNat_foldl_add f xs, UInt64.toNat_add, List.map_cons, sumOf, sumOf,
      List.foldr_cons, Nat.mod_add_mod, Nat.add_assoc]

namespace Pool

open Double (IsWhole)

variable {o : Ontology} {r : Resource} {pool p q s : Pool} {property : Model} {k : Nat}
  {factor factor' : Double} {checks checks' : List Check}

/-! ### Factors -/

theorem check_eq_ok {cs : List PropertyConstraint} {c : Check}
    (h : pool.check o r property cs = .ok c) :
    pool.propertyValue o property = some c.value ∧ ValueBound.merge property cs = .ok c.bound := by
  rw [check] at h
  split at h
  · exact absurd h (by simp)
  · rename_i value hvalue
    split at h
    · exact absurd h (by simp)
    · rename_i bound hbound
      obtain rfl := Except.ok.inj h
      exact ⟨hvalue, hbound⟩

/-- Raising a whole factor gives a whole factor. -/
theorem raiseFactor_ofNat {c : Check} (hk : 0 < k)
    (h : raiseFactor r pool (.ofNat k) c = .ok factor) : ∃ n, 0 < n ∧ factor = .ofNat n := by
  rw [raiseFactor] at h
  split_ifs at h
  · obtain ⟨n, hn, hmax⟩ := Double.exists_max_ceil_eq_ofNat hk (c.bound.min / c.value)
    exact ⟨n, hn, (Except.ok.inj h).symm.trans hmax⟩
  · exact ⟨k, hk, (Except.ok.inj h).symm⟩

/-- What is gathered for some properties: a whole factor and a check for each. -/
theorem foldlM_gather {clusters : List (Model × List PropertyConstraint)} (hk : 0 < k)
    (h : clusters.foldlM (gather o r pool) (.ofNat k, checks) = .ok (factor, checks')) :
    (∃ n, 0 < n ∧ factor = .ofNat n) ∧ checks ⊆ checks' ∧ ∀ cluster ∈ clusters, ∃ c ∈ checks',
      pool.check o r cluster.1 cluster.2 = .ok c := by
  induction clusters generalizing k checks with
  | nil =>
    obtain ⟨rfl, rfl⟩ := Prod.mk.inj (Except.ok.inj h)
    exact ⟨⟨k, hk, rfl⟩, List.Subset.refl _, fun cluster hc => absurd hc List.not_mem_nil⟩
  | cons cluster rest ih =>
    rw [List.foldlM_cons] at h
    obtain ⟨state, hstate, hrest⟩ := exists_of_bind_eq_ok h
    obtain ⟨c, hcheck, hraise⟩ := exists_of_bind_eq_ok hstate
    obtain ⟨raised, hraised, hnext⟩ := exists_of_bind_eq_ok hraise
    obtain ⟨n, hn, rfl⟩ := raiseFactor_ofNat hk hraised
    obtain rfl := Except.ok.inj hnext
    obtain ⟨hfactor, hsub, hall⟩ := ih hn hrest
    refine ⟨hfactor, List.Subset.trans (List.subset_append_left _ _) hsub, ?_⟩
    rw [List.forall_mem_cons]
    exact ⟨⟨c, hsub (List.mem_append_right _ (List.mem_singleton_self c)), hcheck⟩, hall⟩

theorem contains_of_forM_confirm : ∀ {checks : List Check},
    checks.forM (confirm r pool factor) = .ok () →
    ∀ c ∈ checks, c.bound.contains (factor * c.value) = true
  | [], _, c, hc => absurd hc List.not_mem_nil
  | d :: rest, h, c, hc => by
    obtain ⟨_, hd, hrest⟩ := exists_of_bind_eq_ok h
    rcases List.mem_cons.1 hc with rfl | hc
    · rw [confirm] at hd
      split_ifs at hd with hcontains
      exact hcontains
    · exact contains_of_forM_confirm hrest c hc

/-- If a pool can be taken a number of times to meet all constraints, the number is whole, and so
many times each constrained value is within its bound. -/
theorem scalingFactor_spec (h : scalingFactor o r pool = .ok factor) :
    (∃ k, 0 < k ∧ factor = .ofNat k) ∧ ∀ property ∈ r.properties, ∃ v b,
      pool.propertyValue o property = some v ∧ ValueBound.merge property r.constraints = .ok b ∧
      b.contains (factor * v) = true := by
  rw [scalingFactor] at h
  obtain ⟨⟨raised, checks⟩, hgather, hconfirm⟩ := exists_of_bind_eq_ok h
  obtain ⟨_, hforM, hfactor⟩ := exists_of_bind_eq_ok hconfirm
  obtain rfl := Except.ok.inj hfactor
  obtain ⟨hwhole, -, hall⟩ := foldlM_gather Nat.one_pos hgather
  refine ⟨hwhole, fun property hproperty => ?_⟩
  obtain ⟨c, hc, hcheck⟩ := hall _ (List.mem_map_of_mem hproperty)
  obtain ⟨hvalue, hbound⟩ := check_eq_ok hcheck
  refine ⟨c.value, c.bound, hvalue, ?_, contains_of_forM_confirm hforM c hc⟩
  rw [← hbound, ValueBound.merge, ValueBound.merge, List.filter_filter]
  simp

theorem scalingFactor_of_isEmpty (h : r.constraints = []) : scalingFactor o r pool = .ok 1 := by
  rw [scalingFactor, Resource.clusters, Resource.properties, h]
  rfl

/-! ### Multiples of pools -/

/-- Whether a pool holds so many times what another does. -/
def IsMultiple (k : Nat) (q s : Pool) : Prop := ∀ a, (q.count a).toNat = k * (s.count a).toNat

/-- A count, so many times. -/
def times (k : Nat) (c : UInt32) : UInt32 := .ofNat (k * c.toNat)

namespace IsMultiple

variable (h : IsMultiple k q s)
include h

theorem count_eq (a : Model) : q.count a = times k (s.count a) := by
  rw [times, ← h a, UInt32.ofNat_toNat]

theorem toNat_times {e : Model × UInt32} (he : e ∈ s.normalized.entries) :
    (times k e.2).toNat = k * e.2.toNat := by
  have hcount : s.count e.1 = e.2 := by rw [← count_normalized, count_eq_of_mem he]
  rw [← hcount, ← h.count_eq, h e.1]

theorem entries_eq (hk : 0 < k) :
    q.normalized.entries = s.normalized.entries.map fun e => (e.1, times k e.2) := by
  have hnormal : (s.mapCounts (times k)).IsNormal := by
    refine isNormal_mapCounts fun e he hzero => ?_
    have htimes := h.toNat_times he
    rw [hzero, UInt32.toNat_zero, eq_comm, Nat.mul_eq_zero] at htimes
    exact isNormal_normalized s e he (UInt32.toNat_inj.1 (htimes.resolve_left hk.ne'))
  rw [← entries_mapCounts]
  refine congrArg entries (ext_count (isNormal_normalized q) hnormal fun a => ?_)
  rw [count_normalized, count_mapCounts, h.count_eq]
  split
  · rename_i hzero
    rw [hzero]
    rfl
  · rfl

end IsMultiple

/-! ### Values of multiples -/

/-- The payload slots of the entries that state them, in exact numbers. -/
def statedSlots (o : Ontology) (pool : Pool) : List Nat :=
  pool.normalized.entries.filterMap fun e =>
    let restrictions := o.restrictions e.1 Vocabulary.hasTransportCapacity
    if restrictions.isEmpty then none
    else some (sumOf ((BoundMap.ofRestrictions restrictions).values.map (·.max.toNat)) * e.2.toNat)

theorem toNat_slotsOf (restrictions : List CardinalityRestriction) (count : UInt32) :
    (slotsOf restrictions count).toNat =
      sumOf ((BoundMap.ofRestrictions restrictions).values.map (·.max.toNat)) * count.toNat %
        2 ^ 64 := by
  rw [slotsOf, UInt64.toNat_mul, toNat_foldl_add]
  simp

theorem map_toNat_slots (o : Ontology) (pool : Pool) :
    (pool.slots o).map UInt64.toNat = (pool.statedSlots o).map (· % 2 ^ 64) := by
  rw [slots, statedSlots, List.map_filterMap, List.map_filterMap]
  refine List.filterMap_congr fun e _ => ?_
  simp only
  split
  · rfl
  · rw [Option.map_some, Option.map_some, toNat_slotsOf]

/-- The payload slots of a pool: what 64 bits hold of the exact number. -/
theorem transportCapacity_eq (o : Ontology) (pool : Pool) : pool.transportCapacity o =
    if (pool.statedSlots o).isEmpty then none
    else some (.ofNat (sumOf (pool.statedSlots o) % 2 ^ 64)) := by
  have hempty : (pool.slots o).isEmpty = (pool.statedSlots o).isEmpty := by
    rw [← List.isEmpty_map (f := UInt64.toNat), map_toNat_slots, List.isEmpty_map]
  have hsum : ((pool.slots o).foldl (· + ·) 0).toNat = sumOf (pool.statedSlots o) % 2 ^ 64 := by
    calc ((pool.slots o).foldl (· + ·) 0).toNat
        = (0 + sumOf ((pool.slots o).map UInt64.toNat)) % 2 ^ 64 :=
          toNat_foldl_add id (pool.slots o) 0
      _ = sumOf ((pool.statedSlots o).map (· % 2 ^ 64)) % 2 ^ 64 := by
          rw [Nat.zero_add, map_toNat_slots]
      _ = sumOf (pool.statedSlots o) % 2 ^ 64 := (List.sum_nat_mod _ _).symm
  rw [transportCapacity, hempty, hsum]

/-- Whether the value of a property of a pool is put together from whole numbers that are so small
that arithmetic with them is exact. -/
structure HasWholeValues (o : Ontology) (property : Model) (pool : Pool) : Prop where
  isWhole : ∀ e ∈ pool.ownValues o property, e.1.IsWhole e.1.whole
  total_lt : sumOf ((pool.ownValues o property).map fun e => e.1.whole.natAbs * e.2.toNat) < 2 ^ 53
  slots_lt : sumOf (pool.statedSlots o) < 2 ^ 53

instance (o : Ontology) (property : Model) (pool : Pool) :
    Decidable (pool.HasWholeValues o property) :=
  decidable_of_iff ((∀ e ∈ pool.ownValues o property, e.1.IsWhole e.1.whole) ∧
      sumOf ((pool.ownValues o property).map fun e => e.1.whole.natAbs * e.2.toNat) < 2 ^ 53 ∧
      sumOf (pool.statedSlots o) < 2 ^ 53)
    ⟨fun ⟨hwhole, htotal, hslots⟩ => ⟨hwhole, htotal, hslots⟩,
      fun ⟨hwhole, htotal, hslots⟩ => ⟨hwhole, htotal, hslots⟩⟩

/-- The value of a property if all that goes into it is whole. -/
def wholeValue (o : Ontology) (property : Model) (pool : Pool) : Int :=
  if (pool.ownValues o property).isEmpty then sumOf (pool.statedSlots o)
  else ((pool.ownValues o property).map fun e => e.1.whole * (e.2.toNat : Int)).sum

theorem propertyValue_eq (o : Ontology) (property : Model) (pool : Pool) :
    pool.propertyValue o property =
      if (pool.ownValues o property).isEmpty then pool.transportCapacity o
      else some ((pool.ownValues o property).foldl
        (fun sum e => sum + e.1 * .ofNat e.2.toNat) 0) := by
  rw [propertyValue, dataValue]
  cases (pool.ownValues o property).isEmpty <;> rfl

/-- A value that is put together from small whole numbers is the exact one. -/
theorem HasWholeValues.isWhole_propertyValue (h : pool.HasWholeValues o property) {v : Double}
    (hv : pool.propertyValue o property = some v) : v.IsWhole (pool.wholeValue o property) := by
  rw [propertyValue_eq] at hv
  rw [wholeValue]
  split
  · rename_i hnone
    rw [if_pos hnone, transportCapacity_eq] at hv
    split at hv
    · exact absurd hv (by simp)
    · have hlt := h.slots_lt
      rw [← Option.some.inj hv, Nat.mod_eq_of_lt (by omega)]
      exact Double.isWhole_ofNat hlt
  · rename_i hsome
    rw [if_neg hsome] at hv
    rw [← Option.some.inj hv]
    have hzero : IsWhole 0 0 := Double.isWhole_ofNat (by decide)
    have hsum := Double.isWhole_foldl hzero h.isWhole (by simpa using h.total_lt)
    rwa [Int.zero_add] at hsum

theorem HasWholeValues.natAbs_wholeValue_lt (h : pool.HasWholeValues o property) :
    (pool.wholeValue o property).natAbs < 2 ^ 53 := by
  rw [wholeValue]
  split
  · rw [Int.natAbs_natCast]
    exact h.slots_lt
  · have hle := List.le_sum_of_subadditive Int.natAbs Int.natAbs_zero.le Int.natAbs_add_le
      ((pool.ownValues o property).map fun e => e.1.whole * (e.2.toNat : Int))
    rw [List.map_map] at hle
    refine hle.trans_lt (lt_of_eq_of_lt ?_ h.total_lt)
    refine congrArg List.sum (List.map_congr_left fun e _ => ?_)
    rw [Function.comp_apply, Int.natAbs_mul, Int.natAbs_natCast]

section Multiple

variable (hk : 0 < k) (h : IsMultiple k q s)
include hk h

theorem statedSlots_of_isMultiple (o : Ontology) :
    q.statedSlots o = (s.statedSlots o).map (k * ·) := by
  rw [statedSlots, statedSlots, h.entries_eq hk, List.filterMap_map, List.map_filterMap]
  refine List.filterMap_congr fun e he => ?_
  have htimes := h.toNat_times he
  simp only [Function.comp_apply, htimes]
  split
  · rfl
  · exact congrArg some (by ring)

theorem ownValues_of_isMultiple (o : Ontology) (property : Model) :
    q.ownValues o property = (s.ownValues o property).map fun e => (e.1, times k e.2) := by
  rw [ownValues, ownValues, h.entries_eq hk, List.filterMap_map, List.map_filterMap]
  refine List.filterMap_congr fun e _ => ?_
  simp only [Function.comp_apply, Option.map_map]
  rfl

theorem map_ownValues_of_isMultiple {β : Type} (o : Ontology) (property : Model)
    (g : Double → Nat → β) : (q.ownValues o property).map (fun e => g e.1 e.2.toNat) =
      (s.ownValues o property).map fun e => g e.1 (k * e.2.toNat) := by
  rw [ownValues_of_isMultiple hk h, List.map_map]
  refine List.map_congr_left fun e he => ?_
  obtain ⟨d, hd, hvalue⟩ := List.mem_filterMap.1 he
  obtain ⟨v, -, rfl⟩ := Option.map_eq_some_iff.1 hvalue
  exact congrArg (g v) (h.toNat_times hd)

theorem wholeValue_of_isMultiple (o : Ontology) (property : Model) :
    q.wholeValue o property = k * s.wholeValue o property := by
  have hempty : (q.ownValues o property).isEmpty = (s.ownValues o property).isEmpty := by
    rw [ownValues_of_isMultiple hk h, List.isEmpty_map]
  rw [wholeValue, wholeValue, hempty, map_ownValues_of_isMultiple hk h o property fun x n =>
    x.whole * (n : Int), statedSlots_of_isMultiple hk h]
  split
  · rw [sumOf_map_mul, Int.natCast_mul]
  · rw [← List.sum_map_mul_left]
    refine congrArg List.sum (List.map_congr_left fun e _ => ?_)
    push_cast
    ring

/-- The parts of a multiple are whole, and those of the pool that is taken are. -/
theorem HasWholeValues.of_isMultiple (hq : q.HasWholeValues o property) :
    s.HasWholeValues o property where
  isWhole e he := by
    refine hq.isWhole (e.1, times k e.2) ?_
    rw [ownValues_of_isMultiple hk h]
    exact List.mem_map_of_mem he
  total_lt := by
    refine lt_of_le_of_lt ?_ hq.total_lt
    rw [map_ownValues_of_isMultiple hk h o property fun x n => x.whole.natAbs * n]
    refine List.sum_le_sum fun e _ => ?_
    exact Nat.mul_le_mul_left _ (Nat.le_mul_of_pos_left _ hk)
  slots_lt := by
    have hlt := hq.slots_lt
    rw [statedSlots_of_isMultiple hk h, sumOf_map_mul] at hlt
    exact lt_of_le_of_lt (Nat.le_mul_of_pos_left _ hk) hlt

end Multiple

/-- Doubles of the same rank are within the same bounds. -/
theorem contains_congr {b : ValueBound} {x y : Double} (hx : x.IsNumber) (hy : y.IsNumber)
    (h : x.rank = y.rank) : b.contains x = b.contains y := by
  have hmin : b.min ≤ x ↔ b.min ≤ y := by
    rw [Double.le_iff_and, Double.le_iff_and, h]
    simp [hx, hy]
  have hmax : x ≤ b.max ↔ y ≤ b.max := by
    rw [Double.le_iff_and, Double.le_iff_and, h]
    simp [hx, hy]
  rw [ValueBound.contains, ValueBound.contains, decide_eq_decide.2 hmin, decide_eq_decide.2 hmax]

/-- What is confirmed for a factor holds of the pool that is taken so many times. -/
theorem contains_propertyValue {b : ValueBound} {v : Double} (hk : 0 < k) (hk' : k < 2 ^ 53)
    (h : IsMultiple k q s) (hq : q.HasWholeValues o property)
    (hv : s.propertyValue o property = some v) (hb : b.contains (.ofNat k * v) = true) :
    ∃ w, q.propertyValue o property = some w ∧ b.contains w = true := by
  obtain ⟨w, hw⟩ : ∃ w, q.propertyValue o property = some w := by
    rw [propertyValue_eq, transportCapacity_eq] at hv ⊢
    rw [ownValues_of_isMultiple hk h, statedSlots_of_isMultiple hk h, List.isEmpty_map,
      List.isEmpty_map]
    split_ifs at hv ⊢ <;> exact ⟨_, rfl⟩
  have hvalue := (hq.of_isMultiple hk h).isWhole_propertyValue hv
  have hvalue' := hq.isWhole_propertyValue hw
  have hlt := hq.natAbs_wholeValue_lt
  rw [wholeValue_of_isMultiple hk h] at hvalue' hlt
  have hproduct := (Double.isWhole_ofNat hk').mul hvalue hlt
  refine ⟨w, hw, ?_⟩
  rwa [contains_congr hvalue'.isNumber hproduct.isNumber (hvalue'.rank_eq hproduct)]

end Pool
end Muster
