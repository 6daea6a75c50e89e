import Muster.Pool.Atoms
import Muster.Proofs.Pool.Counts

/-!
Pools and lists of atoms. Writing a pool out neither loses nor merges an atom, as every model has
one entry; counting a list of atoms does not either, unless there are more of a model than a pool
can record. So both lead back: from a pool to the pool without the entries that count zero, as long
as it may be written out, and from a list that is in order to the list.

Main statements: `count_expand`, `toNat_count_ofAtoms`, `ofAtoms_expand`, `AtomList.ext_perm`,
`AtomList.ofPool_toPool`.
-/

namespace Muster

open Std

/-- Counts that stop at the limit add up to one that does. -/
theorem min_add_min (a b : Nat) : min (min a countLimit + min b countLimit) countLimit =
    min (a + b) countLimit := by
  omega

namespace Pool

variable {p : Pool} {m : Model}

/-! ### Counting atoms -/

/-- How many atoms of each model there are. -/
def ofAtoms (ms : List Model) : Pool := ofPairs (ms.map fun m => (m, 1))

theorem ofAtoms_concat (ms : List Model) (m : Model) :
    ofAtoms (ms ++ [m]) = (ofAtoms ms).add m 1 := by
  rw [ofAtoms, ofPairs, List.map_append, List.foldl_append]
  rfl

/-- A pool of atoms counts them, as far as it can record. -/
theorem toNat_count_ofAtoms (ms : List Model) (m : Model) :
    ((ofAtoms ms).count m).toNat = Min.min (ms.count m) countLimit := by
  induction ms using List.reverseRecOn with
  | nil => rfl
  | append_singleton ms a ih =>
    rw [ofAtoms_concat, count_add, List.count_append, List.count_singleton]
    by_cases h : m = a
    · subst h
      rw [if_pos rfl, if_pos (beq_self_eq_true m), toNat_addCounts, ih]
      exact min_add_min _ 1
    · rw [if_neg h, if_neg (by simpa using Ne.symm h), ih, Nat.add_zero]

/-- Only models of atoms are recorded. -/
theorem isNormal_ofAtoms (ms : List Model) : (ofAtoms ms).IsNormal := by
  induction ms using List.reverseRecOn with
  | nil => exact isNormal_empty
  | append_singleton ms a ih =>
    have hpos : addCounts ((ofAtoms ms).count a) 1 ≠ 0 := by
      intro h
      have hzero := congrArg UInt32.toNat h
      rw [toNat_addCounts, UInt32.toNat_one, UInt32.toNat_zero, countLimit] at hzero
      omega
    rw [ofAtoms_concat, add]
    exact isNormal_set ih hpos

/-! ### Atoms of a pool -/

/-- Entries of different models, written out, hold as many atoms of each as its entry says. -/
theorem count_expand : ∀ {es : List (Model × UInt32)}, (es.map Prod.fst).Nodup →
    (AtomList.expand es).count m = ((OrderedMap.lookup m es).getD 0).toNat
  | [], _ => rfl
  | e :: es, h => by
    obtain ⟨hnot, hnodup⟩ := List.nodup_cons.1 h
    rw [AtomList.expand, List.flatMap_cons, List.count_append, List.count_replicate,
      OrderedMap.lookup_cons, ← AtomList.expand, count_expand hnodup]
    by_cases hm : m = e.1
    · have hnone : OrderedMap.lookup m es = none := by
        rw [← Option.not_isSome_iff_eq_none, OrderedMap.lookup_isSome, hm]
        exact hnot
      rw [hnone, if_pos hm, if_pos (beq_iff_eq.2 hm.symm)]
      rfl
    · rw [if_neg hm, if_neg (by simpa using Ne.symm hm), Nat.zero_add]

theorem count_expand_entries (p : Pool) (m : Model) :
    (AtomList.expand p.entries).count m = (p.count m).toNat :=
  count_expand (nodup_of_ascending p.counts.ascending)

theorem length_expand (es : List (Model × UInt32)) :
    (AtomList.expand es).length = sumOf (es.map fun e => e.2.toNat) := by
  rw [AtomList.expand, List.length_flatMap]
  simp only [List.length_replicate]
  rfl

/-- The atoms of a pool have that pool. -/
theorem ofAtoms_expand (p : Pool) : ofAtoms (AtomList.expand p.entries) = p.normalized := by
  refine ext_count (isNormal_ofAtoms _) (isNormal_normalized p) fun m => UInt32.toNat_inj.1 ?_
  rw [toNat_count_ofAtoms, count_expand_entries, count_normalized]
  exact Nat.min_eq_left (Nat.le_of_lt_succ (p.count m).toNat_lt)

/-- The pool of atoms has them again, in some order, if it can record as many. -/
theorem expand_ofAtoms_perm {ms : List Model} (h : ms.length ≤ countLimit) :
    (AtomList.expand (ofAtoms ms).entries).Perm ms := by
  refine List.perm_iff_count.2 fun m => ?_
  rw [count_expand_entries, toNat_count_ofAtoms]
  exact Nat.min_eq_left (List.count_le_length.trans h)

end Pool

namespace AtomList

variable {p : Pool} {a b : AtomList}

/-! ### Lists in order -/

/-- Lists in order with the same atoms are equal. -/
theorem ext_perm (h : a.atoms.Perm b.atoms) : a = b := by
  have hatoms : a.atoms = b.atoms := by
    refine List.Perm.eq_of_pairwise (fun m n _ _ hmn hnm => ?_) a.ascending b.ascending h
    exact LawfulEqOrd.eq_of_compare (OrientedCmp.isLE_antisymm hmn hnm)
  obtain ⟨ms, _⟩ := a
  obtain ⟨ns, _⟩ := b
  subst hatoms
  rfl

/-- A pool is written out just if it does not hold too many atoms. -/
theorem ofPool_cases (p : Pool) :
    p.totalAtoms ≤ limit ∧
      ofPool p = .ok ⟨expand p.entries, ascending_expand p.counts.ascending⟩ ∨
    limit < p.totalAtoms ∧ ∃ reason, ofPool p = .error (.invalidArgument reason) := by
  rw [ofPool]
  by_cases h : p.totalAtoms ≤ limit
  · rw [if_pos h]
    exact .inl ⟨h, rfl⟩
  · rw [if_neg h]
    exact .inr ⟨Nat.lt_of_not_le h, _, rfl⟩

theorem ofPool_eq_error_iff :
    (∃ reason, ofPool p = .error (.invalidArgument reason)) ↔ limit < p.totalAtoms := by
  rcases ofPool_cases p with ⟨hle, hok⟩ | ⟨hlt, hreason⟩
  · rw [hok]
    exact iff_of_false (fun ⟨_, h⟩ => nomatch h) (Nat.not_lt_of_le hle)
  · exact iff_of_true hreason hlt

theorem ofPool_eq_ok (h : p.totalAtoms ≤ limit) :
    ofPool p = .ok ⟨expand p.entries, ascending_expand p.counts.ascending⟩ := by
  rcases ofPool_cases p with ⟨-, hok⟩ | ⟨hlt, -⟩
  · exact hok
  · exact absurd h (Nat.not_le_of_lt hlt)

/-- Atoms that are put in order and counted are written out as they are in order. -/
theorem ofPool_toPool_ofModels {ms : List Model} (h : ms.length ≤ limit) :
    ofPool (ofModels ms).toPool = .ok (ofModels ms) := by
  have hsorted : (ofModels ms).atoms.length = ms.length := (sorted_perm ms).length_eq
  have hperm : (expand (ofModels ms).toPool.entries).Perm (ofModels ms).atoms :=
    Pool.expand_ofAtoms_perm (by rw [hsorted]; exact h.trans (by decide))
  have htotal : (ofModels ms).toPool.totalAtoms = ms.length := by
    rw [Pool.totalAtoms, ← Pool.length_expand, hperm.length_eq, hsorted]
  rw [ofPool_eq_ok (htotal.trans_le h)]
  exact congrArg Except.ok (ext_perm hperm)

/-- A pool is refused just if it holds more than `2 ^ 20` atoms. Otherwise it is written out in
order, each model as often as the pool counts it, and counting the atoms gives the pool without
entries that count zero. A list of no more atoms is found again, in order, when the pool that counts
it is written out. -/
theorem ofPool_toPool :
    (∀ p, (∃ reason, ofPool p = .error (.invalidArgument reason)) ↔ 2 ^ 20 < p.totalAtoms) ∧
    (∀ p, p.totalAtoms ≤ 2 ^ 20 → ∃ a, ofPool p = .ok a ∧
      a.atoms.Pairwise (fun m n => (compare m n).isLE) ∧
      (∀ m, a.atoms.count m = (p.count m).toNat) ∧ a.toPool = p.normalized) ∧
    ∀ ms : List Model, ms.length ≤ 2 ^ 20 →
      ofPool (ofModels ms).toPool = .ok (ofModels ms) := by
  refine ⟨fun p => ofPool_eq_error_iff, fun p hp => ?_, fun ms => ofPool_toPool_ofModels⟩
  exact ⟨_, ofPool_eq_ok hp, ascending_expand p.counts.ascending, Pool.count_expand_entries p,
    Pool.ofAtoms_expand p⟩

/-- Two rovers and a dock, in a pool that also records a drone without instances, and as a list. -/
theorem ofPool_toPool_docksAndRovers :
    (let p := Pool.ofPairs [(⟨"Rover"⟩, 2), (⟨"Drone"⟩, 0), (⟨"Dock"⟩, 1)]
    p.totalAtoms ≤ 2 ^ 20 ∧ ∃ a, ofPool p = .ok a ∧ a.toPool = p.normalized) ∧
    (let ms : List Model := [⟨"Rover"⟩, ⟨"Dock"⟩, ⟨"Rover"⟩]
    ms.length ≤ 2 ^ 20 ∧ ofPool (ofModels ms).toPool = .ok (ofModels ms)) := by
  obtain ⟨-, hpool, hlist⟩ := ofPool_toPool
  have hp : (Pool.ofPairs [(⟨"Rover"⟩, 2), (⟨"Drone"⟩, 0), (⟨"Dock"⟩, 1)]).totalAtoms ≤ 2 ^ 20 := by
    decide +kernel
  obtain ⟨a, ha, -, -, hnormalized⟩ := hpool _ hp
  exact ⟨⟨hp, a, ha, hnormalized⟩, by decide, hlist _ (by decide)⟩

end AtomList
end Muster
