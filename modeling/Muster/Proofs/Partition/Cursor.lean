import Mathlib.Data.List.MinMax
import Mathlib.Data.List.FinRange
import Muster.Proofs.Partition.Blocks

/-!
The partitions that a cursor lists. Its labels are the strings of restricted growth that use as many
labels as there are blocks, in lexicographic order. Two such strings that describe the same blocks
are equal: a label in use is that of an earlier item in the block, and there is only one new label.
So every partition is listed exactly once.

Main statements: `pairwise_labelings`, `eq_of_unordered`, `take_start`, `toList_start`.
-/

namespace Muster

/-! ### Restricted growth -/

/-- The first label is zero, and each label is at most one more than the greatest before it. -/
def IsRestrictedGrowth (labels : List Nat) : Prop :=
  labels.head? = some 0 ∧ ∀ i (h : i < labels.length), 0 < i →
    labels[i] ≤ (labels.take i).max?.getD 0 + 1

/-- The labels in use are those up to the greatest one. -/
theorem foldl_usedAfter (labels : List Nat) : ∀ used, labels.foldl usedAfter used =
    Nat.max used (labels.max?.elim 0 (· + 1)) := by
  induction labels with
  | nil => exact fun used => (Nat.max_eq_left (Nat.zero_le used)).symm
  | cons l rest ih =>
    intro used
    rw [List.foldl_cons, ih, List.max?_cons]
    cases rest.max? with
    | none => exact Nat.max_eq_left (Nat.zero_le _)
    | some m =>
      simp only [Option.elim_some, usedAfter]
      show max (max used (l + 1)) (m + 1) = max used (max l m + 1)
      omega

theorem foldl_usedAfter_zero (labels : List Nat) :
    labels.foldl usedAfter 0 = labels.max?.elim 0 (· + 1) := by
  rw [foldl_usedAfter]
  exact Nat.max_eq_right (Nat.zero_le _)

/-- Labels are given out in order if each is in use before it comes up, or the next one. -/
theorem isGrowth_iff : ∀ {labels : List Nat} {used : Nat}, IsGrowth used labels ↔
    ∀ i (h : i < labels.length), labels[i] ≤ (labels.take i).foldl usedAfter used
  | [], used => by simp [IsGrowth]
  | l :: rest, used => by
    rw [IsGrowth, isGrowth_iff]
    constructor
    · rintro ⟨hl, hrest⟩ i hi
      cases i with
      | zero => exact hl
      | succ i => exact hrest i (Nat.lt_of_succ_lt_succ hi)
    · intro h
      exact ⟨h 0 (Nat.zero_lt_succ _), fun i hi => h (i + 1) (Nat.succ_lt_succ hi)⟩

theorem isRestrictedGrowth_iff {labels : List Nat} (hne : labels ≠ []) :
    IsRestrictedGrowth labels ↔ IsGrowth 0 labels := by
  obtain ⟨l, rest, rfl⟩ := List.exists_cons_of_ne_nil hne
  rw [isGrowth_iff, IsRestrictedGrowth]
  have hlater : ∀ i, 0 < i → ((l :: rest).take i).foldl usedAfter 0 =
      ((l :: rest).take i).max?.getD 0 + 1 := by
    intro i hi
    obtain ⟨i, rfl⟩ := Nat.exists_eq_succ_of_ne_zero hi.ne'
    rw [foldl_usedAfter_zero, List.take_succ_cons, List.max?_cons, Option.elim_some,
      Option.getD_some]
  constructor
  · rintro ⟨hzero, hgrowth⟩ i hi
    rcases Nat.eq_zero_or_pos i with rfl | hpos
    · exact (Option.some.inj hzero).le
    · rw [hlater i hpos]
      exact hgrowth i hi hpos
  · intro h
    refine ⟨congrArg some (Nat.le_zero.1 (h 0 (Nat.zero_lt_succ _))), fun i hi hpos => ?_⟩
    rw [← hlater i hpos]
    exact h i hi

/-- The labels for some blocks are the strings of restricted growth that use as many labels. -/
theorem mem_labelings_zero {n k : Nat} (hk : 0 < k) {labels : List Nat} :
    labels ∈ labelings k 0 n ↔ labels.length = n ∧ IsRestrictedGrowth labels ∧
      labels.max?.map (· + 1) = some k := by
  rw [mem_labelings, foldl_usedAfter_zero]
  refine and_congr_right fun _ => ?_
  cases labels with
  | nil => exact iff_of_false (fun h => hk.ne h.2) (fun h => nomatch h.2)
  | cons l rest =>
    rw [isRestrictedGrowth_iff (List.cons_ne_nil l rest), List.max?_cons, Option.elim_some,
      Option.map_some, Option.some_inj]

/-- The labels come in lexicographic order. -/
theorem pairwise_labelings (blocks : Nat) : ∀ (n used : Nat),
    (labelings blocks used n).Pairwise (· < ·)
  | 0, used => by
    rw [labelings]
    split
    · exact List.pairwise_singleton _ _
    · exact .nil
  | n + 1, used => by
    have hcons : ∀ (l : Nat) {rows : List (List Nat)}, rows.Pairwise (· < ·) →
        (rows.map (l :: ·)).Pairwise (· < ·) := by
      intro l rows hrows
      refine List.pairwise_map.2 (hrows.imp fun hlt => ?_)
      exact List.cons_lt_cons_iff.2 (.inr ⟨rfl, hlt⟩)
    have hless : ∀ {l m : Nat} {rows rows' : List (List Nat)}, l < m →
        ∀ x ∈ rows.map (l :: ·), ∀ y ∈ rows'.map (m :: ·), x < y := by
      intro l m rows rows' hlm x hx y hy
      obtain ⟨x, -, rfl⟩ := List.mem_map.1 hx
      obtain ⟨y, -, rfl⟩ := List.mem_map.1 hy
      exact List.cons_lt_cons_iff.2 (.inl hlm)
    rw [labelings, List.pairwise_append, List.pairwise_flatMap]
    refine ⟨⟨fun l _ => hcons l (pairwise_labelings blocks n used), ?_⟩, ?_, fun x hx y hy => ?_⟩
    · exact (List.pairwise_lt_range').imp fun hlm => hless hlm
    · split
      · exact hcons used (pairwise_labelings blocks n (used + 1))
      · exact .nil
    · obtain ⟨l, hl, hx⟩ := List.mem_flatMap.1 hx
      split at hy
      · exact hless (by simpa using (List.mem_range'_1.1 hl).2) x hx y hy
      · exact absurd hy List.not_mem_nil

/-! ### Labels by their blocks -/

section Blocks

variable {α β : Type} {items : List α} {labels : List Nat}

theorem mem_blockOf {x : α} {l : Nat} :
    x ∈ blockOf items labels l ↔ (x, l) ∈ items.zip labels := by
  simp [blockOf]

/-- Each label in use is given to some item. -/
theorem mem_of_lt_foldl_usedAfter (hgrowth : IsGrowth 0 labels) {l : Nat}
    (hl : l < labels.foldl usedAfter 0) : l ∈ labels := by
  have hblock : blockOf labels labels l ∈ blocksOf labels labels :=
    List.mem_map.2 ⟨l, List.mem_range.2 hl, rfl⟩
  obtain ⟨x, hx⟩ := List.exists_mem_of_ne_nil _ ((isSplit_blocksOf rfl hgrowth).ne_nil _ hblock)
  exact (List.of_mem_zip (mem_blockOf.1 hx)).2

/-- Each item has one label. -/
theorem label_unique (hitems : items.Nodup) {x : α} {l m : Nat} (hl : (x, l) ∈ items.zip labels)
    (hm : (x, m) ∈ items.zip labels) : l = m := by
  obtain ⟨i, hi, hil⟩ := List.mem_iff_getElem.1 hl
  obtain ⟨j, hj, hjm⟩ := List.mem_iff_getElem.1 hm
  rw [List.getElem_zip, Prod.mk.injEq] at hil hjm
  obtain rfl : i = j := (List.Nodup.getElem_inj_iff hitems).1 (hil.1.trans hjm.1.symm)
  exact hil.2.symm.trans hjm.2

/-- Items share a block if they have the same label. -/
theorem shares_blocksOf_iff (hitems : items.Nodup) {x y : α} {l m : Nat}
    (hx : (x, l) ∈ items.zip labels) (hy : (y, m) ∈ items.zip labels) :
    (∃ b ∈ unordered (blocksOf items labels), x ∈ b ∧ y ∈ b) ↔ l = m := by
  simp only [unordered, blocksOf, Multiset.mem_coe, List.mem_map, List.mem_range,
    exists_exists_and_eq_and, mem_blockOf]
  constructor
  · rintro ⟨j, -, hxj, hyj⟩
    exact (label_unique hitems hx hxj).trans (label_unique hitems hyj hy)
  · rintro rfl
    exact ⟨l, lt_foldl_usedAfter 0 (List.of_mem_zip hx).2, hx, hy⟩

/-- Labels that are given out in order are told by which items have the same label: a label in use
is the one of an earlier item, and there is only one new label. -/
theorem eq_of_same_labels : ∀ {labels labels' : List Nat}, labels.length = labels'.length →
    IsGrowth 0 labels → IsGrowth 0 labels' →
    (∀ p ∈ labels.zip labels', ∀ q ∈ labels.zip labels', p.1 = q.1 ↔ p.2 = q.2) →
    labels = labels' := by
  intro labels
  induction labels using List.reverseRecOn with
  | nil =>
    intro labels' hlength _ _ _
    exact (List.length_eq_zero_iff.1 hlength.symm).symm
  | append_singleton labels l ih =>
    intro labels' hlength hgrowth hgrowth' hsame
    obtain ⟨labels', l', rfl⟩ := exists_concat_of_length (hlength.symm.trans List.length_append)
    have hlength : labels.length = labels'.length := by simpa using hlength
    obtain ⟨hgrowth, hl⟩ := isGrowth_concat.1 hgrowth
    obtain ⟨hgrowth', hl'⟩ := isGrowth_concat.1 hgrowth'
    rw [List.zip_append hlength] at hsame
    obtain rfl : labels = labels' := ih hlength hgrowth hgrowth' fun p hp q hq =>
      hsame p (List.mem_append_left _ hp) q (List.mem_append_left _ hq)
    have hold : ∀ {m}, m < labels.foldl usedAfter 0 → (l = m ↔ l' = m) := by
      intro m hm
      have hpair : (m, m) ∈ labels.zip labels := by
        obtain ⟨i, hi, hget⟩ := List.mem_iff_getElem.1 (mem_of_lt_foldl_usedAfter hgrowth hm)
        exact List.mem_iff_getElem.2 ⟨i, by simpa using hi, by rw [List.getElem_zip, hget]⟩
      exact hsame (l, l') (by simp) (m, m) (List.mem_append_left _ hpair)
    rcases Nat.lt_or_eq_of_le hl with hl | hl
    · rw [(hold hl).1 rfl]
    · rcases Nat.lt_or_eq_of_le hl' with hl' | hl'
      · rw [(hold hl').2 rfl]
      · rw [hl, hl']

/-- Labels that describe the same blocks are equal. -/
theorem eq_of_unordered {labels' : List Nat} (hitems : items.Nodup)
    (hlength : labels.length = items.length) (hlength' : labels'.length = items.length)
    (hgrowth : IsGrowth 0 labels) (hgrowth' : IsGrowth 0 labels')
    (h : unordered (blocksOf items labels) = unordered (blocksOf items labels')) :
    labels = labels' := by
  have hitem : ∀ p ∈ labels.zip labels', ∃ x,
      (x, p.1) ∈ items.zip labels ∧ (x, p.2) ∈ items.zip labels' := by
    intro p hp
    obtain ⟨i, hi, rfl⟩ := List.mem_iff_getElem.1 hp
    rw [List.length_zip] at hi
    have hlt : i < items.length := by omega
    have hget : ∀ {rows : List Nat} (h : i < rows.length),
        (items[i], rows[i]) ∈ items.zip rows := fun h =>
      List.mem_iff_getElem.2 ⟨i, by rw [List.length_zip]; omega, List.getElem_zip⟩
    rw [List.getElem_zip]
    exact ⟨items[i], hget _, hget _⟩
  refine eq_of_same_labels (hlength.trans hlength'.symm) hgrowth hgrowth' fun p hp q hq => ?_
  obtain ⟨x, hx, hx'⟩ := hitem p hp
  obtain ⟨y, hy, hy'⟩ := hitem q hq
  rw [← shares_blocksOf_iff hitems hx hy, h, shares_blocksOf_iff hitems hx' hy']

/-- What is done to each item is done to each item of the blocks. -/
theorem blocksOf_map (f : α → β) (items : List α) (labels : List Nat) :
    blocksOf (items.map f) labels = (blocksOf items labels).map (List.map f) := by
  rw [blocksOf, blocksOf, List.map_map]
  refine List.map_congr_left fun l _ => ?_
  simp [blockOf, List.zip_map_left, List.filter_map, Function.comp_def]

/-- The blocks of items are those of their positions. -/
theorem blocksOf_eq_map_finRange {n : Nat} (items : List α) (h : items.length = n)
    (labels : List Nat) : blocksOf items labels =
      (blocksOf (List.finRange n) labels).map (List.map fun i => items.get (i.cast h.symm)) := by
  subst h
  have hget : (List.finRange items.length).map (fun i => items.get (i.cast rfl)) = items := by
    rw [← List.ofFn_eq_map]
    exact List.ofFn_get items
  rw [← blocksOf_map, hget]

end Blocks

/-! ### The list of a cursor -/

namespace PartitionCursor

/-- A cursor at the first of some labels that come one after the other takes them in turn. -/
theorem take_eq : ∀ {xs : List (List Nat)} {c : PartitionCursor} (m : Nat),
    Walks (nextLabels c.blocks 0) none xs → c.labels? = xs.head? →
    c.take m = (xs.take m, ⟨c.blocks, xs[m]?⟩)
  | xs, c, 0, _, hfirst => by
    rw [List.take_zero, ← List.head?_eq_getElem?, ← hfirst]
    rfl
  | [], c, m + 1, _, hfirst => by
    rw [take, next?_of_none hfirst, List.take_nil, List.getElem?_nil]
    exact congrArg (([] : List (List Nat)), PartitionCursor.mk c.blocks ·) hfirst
  | x :: xs, c, m + 1, hwalks, hfirst => by
    obtain ⟨hnext, hadvance⟩ := next?_of_walks hwalks hfirst
    have hmore : c.advance.take m = (xs.take m, ⟨c.blocks, xs[m]?⟩) :=
      take_eq m hwalks.2 hadvance
    rw [take, hnext, List.take_succ_cons, List.getElem?_cons_succ]
    simp only [hmore]

/-- From the start a cursor takes the labels for its number of blocks in turn. -/
theorem take_start {n k : Nat} (hk : 0 < k) (m : Nat) : (start n k).take m =
    ((labelings k 0 n).take m, ⟨k, (labelings k 0 n)[m]?⟩) :=
  take_eq m (walks_labelings hk (Nat.zero_le k)) (labels?_start hk)

/-- With no blocks, or more blocks than items, there are no labels. -/
theorem take_start_of_none {n k : Nat} (h : k = 0 ∨ n < k) (m : Nat) :
    (start n k).take m = ([], ⟨k, none⟩) := by
  have hfirst : (start n k).labels? = none := if_pos h
  have hblocks : (start n k).blocks = k := rfl
  have hnil : Walks (nextLabels (start n k).blocks 0) none [] := trivial
  have htake := take_eq m hnil hfirst
  rwa [List.take_nil, List.getElem?_nil, hblocks] at htake

theorem toList_start_of_none {n k : Nat} (h : k = 0 ∨ n < k) : (start n k).toList = [] := by
  rw [toList, take_start_of_none h]

theorem toList_start_of_pos {n k : Nat} (hk : 0 < k) : (start n k).toList = labelings k 0 n := by
  rw [toList, take_start hk]
  exact List.take_of_length_le (length_labelings_le_bound hk)

/-- Rows of labels that list the partitions of `n` items into `k` blocks. The items are numbered
from zero. The one partition that is not listed is that of no items into no blocks. -/
structure ListsPartitions (n k : Nat) (rows : List (List Nat)) : Prop where
  mem_iff : ∀ labels, labels ∈ rows ↔
    labels.length = n ∧ IsRestrictedGrowth labels ∧ labels.max?.map (· + 1) = some k
  lexicographic : rows.Pairwise (· < ·)
  isSplit : ∀ labels ∈ rows, IsSplit (List.finRange n) (blocksOf (List.finRange n) labels) ∧
    (blocksOf (List.finRange n) labels).length = k
  exactly_once : ∀ split : List (List (Fin n)), IsSplit (List.finRange n) split →
    split.length = k → split ≠ [] → ∃! labels, labels ∈ rows ∧
      unordered (blocksOf (List.finRange n) labels) = unordered split

theorem listsPartitions_labelings {n k : Nat} (hk : 0 < k) :
    ListsPartitions n k (labelings k 0 n) where
  mem_iff _ := mem_labelings_zero hk
  lexicographic := pairwise_labelings k n 0
  isSplit labels h := by
    obtain ⟨hlength, hgrowth, hused⟩ := mem_labelings.1 h
    refine ⟨isSplit_blocksOf (by rw [List.length_finRange, hlength]) hgrowth, ?_⟩
    rw [length_blocksOf, hused]
  exactly_once split hsplit hcount _ := by
    obtain ⟨labels, hlabels, hblocks⟩ := exists_labeling hsplit
    rw [hcount, List.length_finRange] at hlabels
    refine ⟨labels, ⟨hlabels, hblocks⟩, fun labels' ⟨hlabels', hblocks'⟩ => ?_⟩
    obtain ⟨hlength, hgrowth, -⟩ := mem_labelings.1 hlabels
    obtain ⟨hlength', hgrowth', -⟩ := mem_labelings.1 hlabels'
    exact eq_of_unordered (List.nodup_finRange n) (by rw [List.length_finRange, hlength'])
      (by rw [List.length_finRange, hlength]) hgrowth' hgrowth (hblocks'.trans hblocks.symm)

/-- There are no labels for no blocks, and only nothing is split into them. -/
theorem listsPartitions_zero (n : Nat) : ListsPartitions n 0 [] where
  mem_iff labels := by
    refine iff_of_false List.not_mem_nil fun ⟨_, _, hmax⟩ => ?_
    obtain ⟨m, -, hm⟩ := Option.map_eq_some_iff.1 hmax
    exact Nat.succ_ne_zero m hm
  lexicographic := .nil
  isSplit _ h := absurd h List.not_mem_nil
  exactly_once _ _ hcount hne := absurd (List.length_eq_zero_iff.1 hcount) hne

/-- A cursor gives, one by one and as many as are asked for, the labels with restricted growth that
use as many labels as there are blocks: in lexicographic order, none for no blocks or for more
blocks than items, and so that each partition of the items comes up once. What the items are does
not matter. -/
theorem toList_start (n k : Nat) :
    ListsPartitions n k (start n k).toList ∧
    (∀ m, (start n k).take m = ((start n k).toList.take m, ⟨k, (start n k).toList[m]?⟩)) ∧
    (k = 0 ∨ n < k → (start n k).toList = []) ∧
    ∀ {α : Type} (items : List α) (h : items.length = n) (labels : List Nat),
      blocksOf items labels =
        (blocksOf (List.finRange n) labels).map (List.map fun i => items.get (i.cast h.symm)) := by
  rcases Nat.eq_zero_or_pos k with rfl | hk
  · rw [toList_start_of_none (.inl rfl)]
    refine ⟨listsPartitions_zero n, fun m => ?_, fun _ => rfl, blocksOf_eq_map_finRange⟩
    rw [take_start_of_none (.inl rfl), List.take_nil, List.getElem?_nil]
  · refine ⟨?_, fun m => ?_, toList_start_of_none, blocksOf_eq_map_finRange⟩
    · rw [toList_start_of_pos hk]
      exact listsPartitions_labelings hk
    · rw [toList_start_of_pos hk, take_start hk]

example : (start 3 2).toList = [[0, 0, 1], [0, 1, 0], [0, 1, 1]] := by decide

end PartitionCursor
end Muster
