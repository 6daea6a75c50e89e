import Muster.Proofs.Pool.Delta

/-!
The order of pools. Inclusion by counts is reflexive and transitive and tells pools apart up to
entries that count zero. In this order the maximum of two pools is their least upper bound and the
minimum their greatest lower bound. Keeping a pool within a bound takes its entries one after the
other and stops at a model that the bound has none of; if there is no such model, what is recorded in
the end is the minimum of pool and bound.

Main statements: `isSubset_max_iff`, `isSubset_iff_max_eq`, `isSubset_iff_min_eq`,
`bounded_eq_some_iff`, `isSubset_lattice`.
-/

namespace Muster.Pool

open Std

variable {p q r bound : Pool} {m : Model}

/-! ### Maxima and minima -/

theorem isSubset_max_iff :
    (p.max q).isSubset r = true ↔ p.isSubset r = true ∧ q.isSubset r = true := by
  refine ⟨fun h => ⟨isSubset_trans (isSubset_max_left p q) h,
    isSubset_trans (isSubset_max_right p q) h⟩, fun ⟨hp, hq⟩ => ?_⟩
  rw [isSubset_iff] at hp hq ⊢
  intro m
  rw [count_max]
  split
  · exact hq m
  · exact hp m

/-- `u` is the normal pool that is least among those that hold both `p` and `q`. -/
structure IsJoin (p q u : Pool) : Prop where
  isNormal : u.IsNormal
  left : p.isSubset u = true
  right : q.isSubset u = true
  least : ∀ r, p.isSubset r = true → q.isSubset r = true → u.isSubset r = true

/-- `u` is the normal pool that is greatest among those that both `p` and `q` hold. -/
structure IsMeet (p q u : Pool) : Prop where
  isNormal : u.IsNormal
  left : u.isSubset p = true
  right : u.isSubset q = true
  greatest : ∀ r : Pool, r.isSubset p = true → r.isSubset q = true → r.isSubset u = true

theorem isJoin_max (p q : Pool) : IsJoin p q (p.max q) where
  isNormal := isNormal_zipWith _ p q
  left := isSubset_max_left p q
  right := isSubset_max_right p q
  least _ hp hq := isSubset_max_iff.2 ⟨hp, hq⟩

theorem isMeet_min (p q : Pool) : IsMeet p q (p.min q) where
  isNormal := isNormal_zipWith _ p q
  left := min_isSubset_left p q
  right := min_isSubset_right p q
  greatest _ hp hq := isSubset_min_iff.2 ⟨hp, hq⟩

theorem isSubset_normalized_left : p.normalized.isSubset q = true ↔ p.isSubset q = true := by
  simp only [isSubset_iff, count_normalized]

theorem isSubset_normalized_right : p.isSubset q.normalized = true ↔ p.isSubset q = true := by
  simp only [isSubset_iff, count_normalized]

/-- Pools that hold each other differ in entries that count zero only. -/
theorem isSubset_and_isSubset_iff :
    p.isSubset q = true ∧ q.isSubset p = true ↔ p.normalized = q.normalized := by
  constructor
  · rintro ⟨hpq, hqp⟩
    rw [isSubset_iff] at hpq hqp
    exact normalized_congr fun m => UInt32.le_antisymm (hpq m) (hqp m)
  · intro h
    have hpq : p.normalized.isSubset q.normalized = true := h ▸ isSubset_refl _
    have hqp : q.normalized.isSubset p.normalized = true := h ▸ isSubset_refl _
    rw [isSubset_normalized_left, isSubset_normalized_right] at hpq hqp
    exact ⟨hpq, hqp⟩

theorem isSubset_iff_max_eq : p.isSubset q = true ↔ p.max q = q.normalized := by
  constructor
  · intro h
    refine isSubset_antisymm (isNormal_zipWith _ p q) (isNormal_normalized q) ?_ ?_
    · exact isSubset_max_iff.2 ⟨isSubset_normalized_right.2 h,
        isSubset_normalized_right.2 (isSubset_refl q)⟩
    · exact isSubset_normalized_left.2 (isSubset_max_right p q)
  · intro h
    exact isSubset_normalized_right.1 (h ▸ isSubset_max_left p q)

theorem isSubset_iff_min_eq : p.isSubset q = true ↔ p.min q = p.normalized := by
  constructor
  · intro h
    refine isSubset_antisymm (isNormal_zipWith _ p q) (isNormal_normalized p) ?_ ?_
    · exact isSubset_normalized_right.2 (min_isSubset_left p q)
    · exact isSubset_min_iff.2 ⟨isSubset_normalized_left.2 (isSubset_refl p),
        isSubset_normalized_left.2 h⟩
  · intro h
    exact isSubset_normalized_left.1 (h ▸ min_isSubset_right p q)

/-! ### Pools kept within a bound -/

/-- If the bound has an instance of each of their models, all entries are recorded, the counts
lowered to those of the bound. -/
theorem foldlM_recordWithin : ∀ {es : List (Model × UInt32)} {p : Pool}, p.IsNormal →
    (es.map Prod.fst).Nodup → (∀ e ∈ es, e.2 ≠ 0 ∧ bound.count e.1 ≠ 0) →
    ∃ q, es.foldlM (recordWithin bound) p = some q ∧ q.IsNormal ∧ ∀ m, q.count m =
      (OrderedMap.lookup m es).elim (p.count m)
        fun c => if bound.count m < c then bound.count m else c
  | [], p, hp, _, _ => ⟨p, rfl, hp, fun _ => rfl⟩
  | e :: es, p, hp, hnodup, hes => by
    obtain ⟨hnot, hnodup'⟩ := List.nodup_cons.1 hnodup
    obtain ⟨⟨hne, hallowed⟩, hes'⟩ := List.forall_mem_cons.1 hes
    have hlow : (if bound.count e.1 < e.2 then bound.count e.1 else e.2) ≠ 0 := by
      split <;> assumption
    obtain ⟨q, hq, hnormal, hcount⟩ := foldlM_recordWithin (isNormal_set hp hlow) hnodup' hes'
    refine ⟨q, ?_, hnormal, fun m => ?_⟩
    · rw [List.foldlM_cons, recordWithin, if_neg hallowed]
      exact hq
    · rw [hcount, count_set, OrderedMap.lookup_cons]
      by_cases hm : m = e.1
      · have hnone : OrderedMap.lookup m es = none := by
          rw [← Option.not_isSome_iff_eq_none, OrderedMap.lookup_isSome, hm]
          exact hnot
        rw [hnone, if_pos hm, if_pos hm, hm]
        rfl
      · rw [if_neg hm, if_neg hm]

/-- An entry that the bound has no instance of is not recorded, and neither is what follows. -/
theorem foldlM_recordWithin_eq_none : ∀ {es : List (Model × UInt32)} {p : Pool},
    (∃ e ∈ es, bound.count e.1 = 0) → es.foldlM (recordWithin bound) p = none
  | [], _, h => by simp at h
  | e :: es, p, h => by
    rw [List.foldlM_cons, recordWithin]
    by_cases hzero : bound.count e.1 = 0
    · rw [if_pos hzero]
      rfl
    · obtain ⟨f, hf, hfzero⟩ := h
      have hmem : f ∈ es := (List.mem_cons.1 hf).resolve_left fun h => hzero (h ▸ hfzero)
      rw [if_neg hzero]
      exact foldlM_recordWithin_eq_none ⟨f, hmem, hfzero⟩

theorem bounded_eq_min (h : ∀ m, p.count m ≠ 0 → bound.count m ≠ 0) :
    p.bounded bound = some (p.min bound) := by
  have hentries : ∀ e ∈ p.normalized.entries, e.2 ≠ 0 ∧ bound.count e.1 ≠ 0 := by
    rintro ⟨m, c⟩ he
    obtain ⟨hc, rfl⟩ := mem_normalized_entries_iff.1 he
    exact ⟨hc, h m hc⟩
  obtain ⟨q, hq, hnormal, hcount⟩ := foldlM_recordWithin isNormal_empty
    (nodup_of_ascending p.normalized.counts.ascending) hentries
  refine hq.trans (congrArg some (ext_count hnormal (isNormal_zipWith _ p bound) fun m => ?_))
  have hm : p.count m = (p.normalized.counts.get? m).getD 0 := (count_normalized p m).symm
  rw [hcount, count_min, hm]
  show (p.normalized.counts.get? m).elim _ _ = _
  cases p.normalized.counts.get? m with
  | none => exact (if_neg UInt32.not_lt_zero).symm
  | some c => rfl

theorem bounded_eq_none (hm : p.count m ≠ 0) (hzero : bound.count m = 0) :
    p.bounded bound = none :=
  foldlM_recordWithin_eq_none ⟨(m, p.count m), mem_normalized_entries_iff.2 ⟨hm, rfl⟩, hzero⟩

/-- A pool is kept within a bound just if the bound has an instance of each of its models. What is
kept is the minimum of both. -/
theorem bounded_eq_some_iff : p.bounded bound = some q ↔
    (∀ m, p.count m ≠ 0 → bound.count m ≠ 0) ∧ p.min bound = q := by
  by_cases h : ∀ m, p.count m ≠ 0 → bound.count m ≠ 0
  · rw [bounded_eq_min h, Option.some.injEq, and_iff_right h]
  · refine iff_of_false ?_ fun hand => h hand.1
    push Not at h
    obtain ⟨m, hm, hzero⟩ := h
    rw [bounded_eq_none hm hzero]
    exact fun hnone => absurd hnone (by simp)

theorem isSome_bounded_iff : (p.bounded bound).isSome = true ↔
    ∀ m, p.count m ≠ 0 → bound.count m ≠ 0 := by
  rw [Option.isSome_iff_exists]
  simp only [bounded_eq_some_iff, exists_and_left, exists_eq', and_true]

theorem eq_min_of_bounded (h : p.bounded bound = some q) : q = p.min bound :=
  (bounded_eq_some_iff.1 h).2.symm

theorem bounded_of_isSubset (hp : p.IsNormal) (h : p.isSubset bound = true) :
    p.bounded bound = some p := by
  refine bounded_eq_some_iff.2 ⟨fun m hm hzero => hm (count_eq_zero_of_isSubset h hzero), ?_⟩
  rw [isSubset_iff_min_eq.1 h, hp.normalized_eq]

/-- Pools are a lattice by their counts, as far as entries that count zero are left out: inclusion
is an order, with the maximum of two pools as the least upper bound and the minimum as the greatest
lower bound, and each of these tells of inclusion, as the difference does. A pool is kept within a
bound just if the bound has an instance of each model that the pool has one of; it is then lowered
to the minimum of both. -/
theorem isSubset_lattice (p q : Pool) :
    p.isSubset p = true ∧
    (∀ r, p.isSubset q = true → q.isSubset r = true → p.isSubset r = true) ∧
    (p.isSubset q = true ∧ q.isSubset p = true ↔ p.normalized = q.normalized) ∧
    IsJoin p q (p.max q) ∧ IsMeet p q (p.min q) ∧
    (p.isSubset q = true ↔ (PoolDelta.between q p).isNegative = false) ∧
    (p.isSubset q = true ↔ p.max q = q.normalized) ∧
    (p.isSubset q = true ↔ p.min q = p.normalized) ∧
    ((p.bounded q).isSome = true ↔ ∀ m, 0 < p.count m → 0 < q.count m) ∧
    ∀ r, p.bounded q = some r → r = p.min q := by
  have hpos : ∀ c : UInt32, 0 < c ↔ c ≠ 0 := fun c => UInt32.pos_iff_ne_zero
  refine ⟨isSubset_refl p, fun _ => isSubset_trans, isSubset_and_isSubset_iff, isJoin_max p q,
    isMeet_min p q, PoolDelta.isNegative_between_eq_false_iff.symm, isSubset_iff_max_eq,
    isSubset_iff_min_eq, ?_, fun _ => eq_min_of_bounded⟩
  simp only [isSome_bounded_iff, hpos]

end Muster.Pool
