import Mathlib.Data.Set.Card
import Mathlib.Data.Setoid.Partition
import Mathlib.Order.Interval.Finset.Nat
import Muster.Proofs.Partition.Bell
import Muster.Proofs.Partition.Cursor

/-!
The number of partitions, counted three ways. The labels that cursors list for each number of blocks
describe the partitions of a set into parts: different labels describe different partitions, and
whatever a partition is, labels can be given out in order so that items have the same one just if
they share a part. So there are as many partitions as labels, and that is the first number in the
row of the triangle, as far as 64 bits hold it.

Main statements: `exists_growth_of_list`, `image_partsOf`, `bellNumber_eq_min`.
-/

namespace Muster

/-! ### Labels for a partition -/

/-- However items differ, labels that are given out in order differ alike. -/
theorem exists_growth_of_list {α : Type} (xs : List α) : ∃ labels : List Nat,
    labels.length = xs.length ∧ IsGrowth 0 labels ∧
      ∀ p ∈ xs.zip labels, ∀ q ∈ xs.zip labels, p.1 = q.1 ↔ p.2 = q.2 := by
  induction xs using List.reverseRecOn with
  | nil => exact ⟨[], rfl, trivial, by simp⟩
  | append_singleton xs a ih =>
    obtain ⟨labels, hlength, hgrowth, hsame⟩ := ih
    -- the label of an earlier item that is the same, or else a new one
    obtain ⟨l, hl, hnew⟩ : ∃ l, l ≤ labels.foldl usedAfter 0 ∧
        ∀ p ∈ xs.zip labels, p.1 = a ↔ p.2 = l := by
      by_cases ha : a ∈ xs
      · obtain ⟨i, hi, rfl⟩ := List.getElem_of_mem ha
        have hi' : i < labels.length := hlength ▸ hi
        have hmem : (xs[i], labels[i]) ∈ xs.zip labels :=
          List.mem_iff_getElem.2 ⟨i, by simpa [hlength] using hi, List.getElem_zip⟩
        exact ⟨_, (lt_foldl_usedAfter 0 (List.of_mem_zip hmem).2).le,
          fun p hp => hsame p hp _ hmem⟩
      · refine ⟨_, Nat.le_refl _, fun p hp => iff_of_false ?_ ?_⟩
        · rintro rfl
          exact ha (List.of_mem_zip hp).1
        · exact (lt_foldl_usedAfter 0 (List.of_mem_zip hp).2).ne
    refine ⟨labels ++ [l], by simp [hlength], isGrowth_concat.2 ⟨hgrowth, hl⟩, ?_⟩
    rw [List.zip_append hlength.symm]
    intro p hp q hq
    rcases List.mem_append.1 hp with hp | hp <;> rcases List.mem_append.1 hq with hq | hq
    · exact hsame p hp q hq
    · rw [List.mem_singleton.1 hq]
      exact hnew p hp
    · rw [List.mem_singleton.1 hp, eq_comm, hnew q hq, eq_comm]
    · rw [List.mem_singleton.1 hp, List.mem_singleton.1 hq]
      simp

/-! ### The partition that labels describe -/

/-- Positions share a part if they have the same label. -/
def partsOf (n : Nat) (labels : List Nat) : Set (Set (Fin n)) :=
  (Setoid.ker fun i : Fin n => labels[i.val]?).classes

theorem exists_mem_partsOf_iff {n : Nat} {labels : List Nat} {i j : Fin n} :
    (∃ part ∈ partsOf n labels, i ∈ part ∧ j ∈ part) ↔ labels[i.val]? = labels[j.val]? :=
  (Setoid.rel_iff_exists_classes _).symm.trans Setoid.ker_def

/-- Labels that describe the same partition are equal. -/
theorem eq_of_partsOf_eq {n : Nat} {labels labels' : List Nat} (hlength : labels.length = n)
    (hlength' : labels'.length = n) (hgrowth : IsGrowth 0 labels) (hgrowth' : IsGrowth 0 labels')
    (h : partsOf n labels = partsOf n labels') : labels = labels' := by
  have hat : ∀ p ∈ labels.zip labels', ∃ i : Fin n,
      labels[i.val]? = some p.1 ∧ labels'[i.val]? = some p.2 := by
    intro p hp
    obtain ⟨i, hi⟩ := List.mem_iff_getElem?.1 hp
    obtain ⟨hfirst, hsecond⟩ := List.getElem?_zip_eq_some.1 hi
    exact ⟨⟨i, hlength ▸ (List.getElem?_eq_some_iff.1 hfirst).1⟩, hfirst, hsecond⟩
  refine eq_of_same_labels (hlength.trans hlength'.symm) hgrowth hgrowth' fun p hp q hq => ?_
  obtain ⟨i, hi, hi'⟩ := hat p hp
  obtain ⟨j, hj, hj'⟩ := hat q hq
  have hsame : labels[i.val]? = labels[j.val]? ↔ labels'[i.val]? = labels'[j.val]? := by
    rw [← exists_mem_partsOf_iff, h, exists_mem_partsOf_iff]
  rwa [hi, hj, hi', hj', Option.some_inj, Option.some_inj] at hsame

/-- Every partition is described by labels. -/
theorem exists_partsOf_eq {n : Nat} {parts : Set (Set (Fin n))} (h : Setoid.IsPartition parts) :
    ∃ labels, (labels.length = n ∧ IsGrowth 0 labels) ∧ partsOf n labels = parts := by
  let shares := Setoid.mkClasses parts h.2
  obtain ⟨labels, hlength, hgrowth, hsame⟩ :=
    exists_growth_of_list (List.ofFn fun i => Quotient.mk shares i)
  rw [List.length_ofFn] at hlength
  have hker : (Setoid.ker fun i : Fin n => labels[i.val]?) = shares := by
    refine Setoid.ext fun i j => ?_
    have hat : ∀ i : Fin n, ∃ l, labels[i.val]? = some l ∧
        (Quotient.mk shares i, l) ∈ (List.ofFn fun i => Quotient.mk shares i).zip labels := by
      intro i
      have hi : i.val < labels.length := hlength.symm ▸ i.isLt
      exact ⟨labels[i.val], List.getElem?_eq_getElem hi,
        List.mem_iff_getElem.2 ⟨i, by simp [hlength], by simp⟩⟩
    obtain ⟨l, hl, hmem⟩ := hat i
    obtain ⟨m, hm, hmem'⟩ := hat j
    rw [Setoid.ker_def, hl, hm, Option.some_inj, ← hsame _ hmem _ hmem']
    exact Quotient.eq
  refine ⟨labels, ⟨hlength, hgrowth⟩, ?_⟩
  rw [partsOf, hker]
  exact Setoid.classes_mkClasses parts h

/-! ### Counting -/

/-- The labels that cursors list, for all numbers of blocks. -/
def listedLabels (n : Nat) : Finset (List Nat) :=
  (Finset.Icc 1 n).biUnion fun k => (PartitionCursor.start n k).toList.toFinset

theorem mem_toList_start_iff {n k : Nat} (hk : 0 < k) {labels : List Nat} :
    labels ∈ (PartitionCursor.start n k).toList.toFinset ↔
      labels.length = n ∧ IsGrowth 0 labels ∧ labels.foldl usedAfter 0 = k := by
  rw [List.mem_toFinset, PartitionCursor.toList_start_of_pos hk, mem_labelings]

theorem mem_listedLabels {n : Nat} (hn : 0 < n) {labels : List Nat} :
    labels ∈ listedLabels n ↔ labels.length = n ∧ IsGrowth 0 labels := by
  rw [listedLabels, Finset.mem_biUnion]
  constructor
  · rintro ⟨k, hk, hlabels⟩
    obtain ⟨hlength, hgrowth, -⟩ := (mem_toList_start_iff (Finset.mem_Icc.1 hk).1).1 hlabels
    exact ⟨hlength, hgrowth⟩
  · rintro ⟨hlength, hgrowth⟩
    obtain ⟨l, hl⟩ := List.exists_mem_of_length_pos (hlength.symm ▸ hn)
    have hpos : 0 < labels.foldl usedAfter 0 := Nat.zero_lt_of_lt (lt_foldl_usedAfter 0 hl)
    have hle : labels.foldl usedAfter 0 ≤ n := by
      refine Nat.not_lt.1 fun hlt => ?_
      have hmem := mem_labelings.2 ⟨hlength, hgrowth, rfl⟩
      rw [labelings_of_lt (by omega)] at hmem
      exact List.not_mem_nil hmem
    exact ⟨_, Finset.mem_Icc.2 ⟨hpos, hle⟩, (mem_toList_start_iff hpos).2 ⟨hlength, hgrowth, rfl⟩⟩

theorem card_listedLabels (n : Nat) : (listedLabels n).card =
    ∑ k ∈ Finset.Icc 1 n, (PartitionCursor.start n k).toList.length := by
  rw [listedLabels, Finset.card_biUnion]
  · refine Finset.sum_congr rfl fun k hk => List.toFinset_card_of_nodup ?_
    rw [PartitionCursor.toList_start_of_pos (Finset.mem_Icc.1 hk).1]
    exact (pairwise_labelings k n 0).imp fun hlt => (ne_of_lt hlt)
  · intro j hj k hk hne
    refine Finset.disjoint_left.2 fun labels hlabels hlabels' => hne ?_
    rw [mem_toList_start_iff (Finset.mem_Icc.1 hj).1] at hlabels
    rw [mem_toList_start_iff (Finset.mem_Icc.1 hk).1] at hlabels'
    exact hlabels.2.2.symm.trans hlabels'.2.2

/-- The partitions are those that the listed labels describe. -/
theorem image_partsOf {n : Nat} (hn : 0 < n) :
    partsOf n '' listedLabels n = {parts | Setoid.IsPartition parts} := by
  ext parts
  constructor
  · rintro ⟨labels, -, rfl⟩
    exact Setoid.isPartition_classes _
  · intro h
    obtain ⟨labels, hlabels, hparts⟩ := exists_partsOf_eq h
    exact ⟨labels, (mem_listedLabels hn).2 hlabels, hparts⟩

theorem sum_length_toList {n : Nat} (hn : 0 < n) :
    ∑ k ∈ Finset.Icc 1 n, (PartitionCursor.start n k).toList.length = growths 0 n := by
  have hsum : ∑ k ∈ Finset.Icc 1 n, (labelings k 0 n).length = growths 0 n := by
    rw [← sum_length_labelings (by omega : 0 + n < n + 1)]
    refine Finset.sum_subset (fun k hk => ?_) fun k hk hnot => ?_
    · rw [Finset.mem_Icc] at hk
      exact Finset.mem_range.2 (Nat.lt_succ_of_le hk.2)
    · rw [Finset.mem_range] at hk
      rw [Finset.mem_Icc] at hnot
      obtain rfl : k = 0 := by omega
      obtain ⟨m, rfl⟩ := Nat.exists_eq_succ_of_ne_zero hn.ne'
      rfl
  rw [← hsum]
  exact Finset.sum_congr rfl fun k hk => by
    rw [PartitionCursor.toList_start_of_pos (Finset.mem_Icc.1 hk).1]

/-- The triangle, the labels that cursors list for all numbers of blocks, and the partitions of a set
have the same number, which the triangle shows as far as 64 bits hold it. -/
theorem bellNumber_eq_min {n : Nat} (hn : 0 < n) :
    bellNumber n =
      min (∑ k ∈ Finset.Icc 1 n, (PartitionCursor.start n k).toList.length) (2 ^ 64 - 1) ∧
    ∑ k ∈ Finset.Icc 1 n, (PartitionCursor.start n k).toList.length =
      {parts : Set (Set (Fin n)) | Setoid.IsPartition parts}.ncard := by
  constructor
  · rw [sum_length_toList hn, bellNumber_eq]
    rfl
  · have hinj : Set.InjOn (partsOf n) (listedLabels n) := by
      intro labels hlabels labels' hlabels' h
      obtain ⟨hlength, hgrowth⟩ := (mem_listedLabels hn).1 hlabels
      obtain ⟨hlength', hgrowth'⟩ := (mem_listedLabels hn).1 hlabels'
      exact eq_of_partsOf_eq hlength hlength' hgrowth hgrowth' h
    rw [← image_partsOf hn, hinj.ncard_image, Set.ncard_coe_finset,
      card_listedLabels]

/-- Four items can be split in fifteen ways. -/
theorem bellNumber_eq_min_four : 0 < 4 ∧ bellNumber 4 = 15 ∧
    {parts : Set (Set (Fin 4)) | Setoid.IsPartition parts}.ncard = 15 := by
  obtain ⟨hbell, hcount⟩ := bellNumber_eq_min (show 0 < 4 by decide)
  have hsum : ∑ k ∈ Finset.Icc 1 4, (PartitionCursor.start 4 k).toList.length = 15 := by
    decide +kernel
  rw [hsum] at hbell hcount
  exact ⟨by decide, hbell, hcount.symm⟩

-- The partitions of 26 items are the first that 64 bits do not count.
example : bellNumber 25 = 4638590332229999353 ∧ bellNumber 26 = 2 ^ 64 - 1 := by decide +kernel

end Muster
