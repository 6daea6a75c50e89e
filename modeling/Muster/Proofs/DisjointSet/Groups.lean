import Muster.Proofs.DisjointSet

/-!
The sets of a disjoint set as a list. Grouping the members of a list by a value gives the group of
the first member and then the groups of the members that are not in it (`groupsOf_cons`), so the
groups come in the order of their first members. For `groups` the value is the root, which makes
the groups the classes of whatever equivalence the roots stand for.

Main statements: `listsClasses_groups`, `length_groups`, `sizeOf_eq_length`.
-/

namespace Muster

/-- The classes of `r` among the numbers below `n`, each ascending, in the order of their least
members. -/
structure ListsClasses (n : Nat) (r : Nat → Nat → Prop) (groups : List (List Nat)) : Prop where
  isClass : ∀ g ∈ groups, ∃ x < n, ∀ y, y ∈ g ↔ y < n ∧ r x y
  exists_mem : ∀ x < n, ∃ g ∈ groups, x ∈ g
  ascending : ∀ g ∈ groups, g.Pairwise (· < ·)
  ordered : groups.Pairwise fun g h => ∀ x ∈ g.head?, ∀ y ∈ h.head?, x < y

/-! ### Grouping by a value -/

/-- The members with each value of `f`, in the order in which the values come up. -/
def groupsOf (f : Nat → Nat) (xs : List Nat) : List (List Nat) :=
  (xs.map f).eraseDups.map fun v => xs.filter (f · == v)

variable {f : Nat → Nat} {xs : List Nat}

theorem groupsOf_cons (f : Nat → Nat) (x : Nat) (xs : List Nat) : groupsOf f (x :: xs) =
    (x :: xs.filter (f · == f x)) :: groupsOf f (xs.filter (f · != f x)) := by
  have hvalues : (xs.map f).filter (fun v => !v == f x) = (xs.filter (f · != f x)).map f := by
    rw [List.filter_map]
    rfl
  rw [groupsOf, List.map_cons, List.eraseDups_cons, List.map_cons, hvalues]
  congr 1
  · simp
  · refine List.map_congr_left fun v hv => ?_
    obtain ⟨y, hy, rfl⟩ := List.mem_map.1 (List.mem_eraseDups.1 hv)
    have hne : f y ≠ f x := by simpa using (List.mem_filter.1 hy).2
    rw [List.filter_cons_of_neg (by simpa using hne.symm), List.filter_filter]
    refine List.filter_congr fun z _ => ?_
    by_cases hz : f z = f y <;> simp [hz, hne]

theorem mem_groupsOf {g : List Nat} :
    g ∈ groupsOf f xs ↔ ∃ x ∈ xs, xs.filter (f · == f x) = g := by
  simp [groupsOf, List.mem_eraseDups]

/-- The first members of the groups of an ascending list ascend. -/
theorem pairwise_groupsOf (f : Nat → Nat) {xs : List Nat} (h : xs.Pairwise (· < ·)) :
    (groupsOf f xs).Pairwise fun g g' => ∀ x ∈ g.head?, ∀ y ∈ g'.head?, x < y := by
  -- the tail is grouped without the group of the head, so the induction is on the length
  induction hn : xs.length using Nat.strong_induction_on generalizing xs with
  | _ n ih =>
    cases xs with
    | nil => exact .nil
    | cons x xs =>
      obtain ⟨hx, hxs⟩ := List.pairwise_cons.1 h
      rw [groupsOf_cons, List.pairwise_cons]
      constructor
      · intro g hg a ha b hb
        obtain rfl : x = a := by simpa using ha
        obtain ⟨y, -, rfl⟩ := mem_groupsOf.1 hg
        have hmem := List.mem_of_mem_head? hb
        simp only [List.mem_filter] at hmem
        exact hx b hmem.1.1
      · refine ih _ ?_ (hxs.sublist List.filter_sublist) rfl
        have := List.length_filter_le (f · != f x) xs
        rw [← hn, List.length_cons]
        omega

theorem nodup_eraseDups (xs : List Nat) : xs.eraseDups.Nodup := by
  induction hn : xs.length using Nat.strong_induction_on generalizing xs with
  | _ n ih =>
    cases xs with
    | nil => exact List.nodup_nil
    | cons x xs =>
      rw [List.eraseDups_cons, List.nodup_cons]
      constructor
      · simp
      · refine ih _ ?_ _ rfl
        have := List.length_filter_le (fun y => !y == x) xs
        rw [← hn, List.length_cons]
        omega

/-! ### Grouping by the root -/

namespace DisjointSet

variable {s : DisjointSet}

theorem groups_eq (s : DisjointSet) : s.groups = groupsOf s.find (List.range s.length) := rfl

theorem mem_groups {g : List Nat} : g ∈ s.groups ↔
    ∃ x < s.length, (List.range s.length).filter (s.find · == s.find x) = g := by
  simp [groups_eq, mem_groupsOf]

/-- Elements with one root are listed as one class. -/
theorem listsClasses_groups {r : Nat → Nat → Prop}
    (h : ∀ x < s.length, ∀ y < s.length, s.find x = s.find y ↔ r x y) :
    ListsClasses s.length r s.groups where
  isClass g hg := by
    obtain ⟨x, hx, rfl⟩ := mem_groups.1 hg
    refine ⟨x, hx, fun y => ?_⟩
    rw [List.mem_filter, List.mem_range, beq_iff_eq]
    refine and_congr_right fun hy => ?_
    rw [← h x hx y hy]
    exact eq_comm
  exists_mem x hx := by
    refine ⟨_, mem_groups.2 ⟨x, hx, rfl⟩, ?_⟩
    simpa using hx
  ascending g hg := by
    obtain ⟨x, -, rfl⟩ := mem_groups.1 hg
    exact List.pairwise_lt_range.sublist List.filter_sublist
  ordered := by
    rw [groups_eq]
    exact pairwise_groupsOf s.find List.pairwise_lt_range

/-- There are as many groups as roots. -/
theorem length_groups (hs : s.IsPartition) : s.groups.length = s.components := by
  have hroots : ((List.range s.length).map s.find).eraseDups.Perm
      ((List.range s.length).filter fun x => s.parentOf x == x) := by
    refine (List.perm_ext_iff_of_nodup (nodup_eraseDups _) (List.nodup_range.filter _)).2 ?_
    intro r
    rw [mem_roots, List.mem_eraseDups, List.mem_map]
    constructor
    · rintro ⟨x, hx, rfl⟩
      exact ⟨find_lt hs.toIsForest (List.mem_range.1 hx), parentOf_find hs.toIsForest x⟩
    · rintro ⟨hr, hroot⟩
      exact ⟨r, List.mem_range.2 hr, find_of_root hroot⟩
  rw [groups_eq, groupsOf, List.length_map, hroots.length_eq, hs.components_eq,
    List.countP_eq_length_filter]

/-- The size of a set is the length of its group. -/
theorem sizeOf_eq_length (hs : s.IsPartition) {g : List Nat} {x : Nat} (hg : g ∈ s.groups)
    (hx : x ∈ g) : s.sizeOf x = g.length := by
  obtain ⟨y, -, rfl⟩ := mem_groups.1 hg
  obtain ⟨hlt, hroot⟩ := List.mem_filter.1 hx
  have hlt := List.mem_range.1 hlt
  have hsize := hs.size_root _ (find_lt hs.toIsForest hlt) (parentOf_find hs.toIsForest x)
  rw [← List.countP_eq_length_filter, ← beq_iff_eq.1 hroot, ← hsize]
  rfl

end DisjointSet
end Muster
