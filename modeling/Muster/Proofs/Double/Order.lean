import Muster.Double.Arithmetic
import Muster.Reduction

/-!
Numbers by their ranks. What is compared as at most something is a number, and numbers are compared
by their ranks; two of the same rank are the same number, zeros of either sign among them. The
lowest of some numbers is one of them, and it does not depend on their order.

Main statements: `le_iff_and`, `lt_iff_and`, `IsNumber.rank_max`, `IsNumber.rank_min`,
`isLowest_reduce`, `rank_reduce_of_perm`.
-/

namespace Muster.Double

/-- Neither of the patterns that stand for no number. -/
def IsNumber (x : Double) : Prop := x.isNaN = false

variable {x y : Double}

theorem le_iff_and : x ≤ y ↔ (x.IsNumber ∧ y.IsNumber) ∧ x.rank ≤ y.rank := by
  show x.le y = true ↔ _
  simp [le, IsNumber]

theorem lt_iff_and : x < y ↔ (x.IsNumber ∧ y.IsNumber) ∧ x.rank < y.rank := by
  show x.lt y = true ↔ _
  simp [lt, IsNumber]

theorem same_iff_and : x.same y = true ↔ (x.IsNumber ∧ y.IsNumber) ∧ x.rank = y.rank := by
  simp [same, IsNumber]

theorem isNumber_zero : IsNumber 0 := by
  rw [IsNumber]
  decide +kernel

theorem rank_zero : rank 0 = 0 := by decide +kernel

theorem rank_of_isZero (h : x.isZero = true) : x.rank = 0 := by
  rw [isZero, decide_eq_true_iff] at h
  rw [rank, h]
  split <;> rfl

theorem isNumber_left (h : x ≤ y) : x.IsNumber := (le_iff_and.1 h).1.1

theorem isNumber_right (h : x ≤ y) : y.IsNumber := (le_iff_and.1 h).1.2

theorem pos_of_le (hx : 0 < x) (hxy : x ≤ y) : 0 < y :=
  lt_iff_and.2 ⟨⟨(lt_iff_and.1 hx).1.1, isNumber_right hxy⟩,
    Int.lt_of_lt_of_le (lt_iff_and.1 hx).2 (le_iff_and.1 hxy).2⟩

theorem rank_eq_zero (h : 0 ≤ x) (hpos : ¬0 < x) : x.rank = 0 := by
  obtain ⟨⟨hzero, hx⟩, hle⟩ := le_iff_and.1 h
  have hnot : ¬rank 0 < x.rank := fun hlt => hpos (lt_iff_and.2 ⟨⟨hzero, hx⟩, hlt⟩)
  rw [rank_zero] at hle hnot
  exact Int.le_antisymm (Int.not_lt.1 hnot) hle

section Number

variable (hx : x.IsNumber) (hy : y.IsNumber)
include hx hy

theorem IsNumber.le_iff : x ≤ y ↔ x.rank ≤ y.rank := by
  rw [le_iff_and]
  exact and_iff_right ⟨hx, hy⟩

theorem IsNumber.lt_iff : x < y ↔ x.rank < y.rank := by
  rw [lt_iff_and]
  exact and_iff_right ⟨hx, hy⟩

theorem IsNumber.same_iff : x.same y = true ↔ x.rank = y.rank := by
  rw [same_iff_and]
  exact and_iff_right ⟨hx, hy⟩

/-- The smaller of two numbers is one of them and at most each. -/
theorem IsNumber.min_cases :
    x.min y = x ∧ x.rank ≤ y.rank ∨ x.min y = y ∧ y.rank ≤ x.rank := by
  rw [Double.min, show x.isNaN = false from hx, show y.isNaN = false from hy]
  rw [if_neg Bool.false_ne_true, if_neg Bool.false_ne_true]
  split
  · rename_i hle
    exact .inr ⟨rfl, (IsNumber.le_iff hy hx).1 hle⟩
  · rename_i hle
    rw [IsNumber.le_iff hy hx, Int.not_le] at hle
    exact .inl ⟨rfl, Int.le_of_lt hle⟩

end Number

protected theorem le_trans {z : Double} (h : x ≤ y) (h' : y ≤ z) : x ≤ z := by
  rw [le_iff_and] at h h' ⊢
  exact ⟨⟨h.1.1, h'.1.2⟩, Int.le_trans h.2 h'.2⟩

protected theorem not_le_of_lt (h : x < y) : ¬ y ≤ x := by
  rw [lt_iff_and] at h
  rw [le_iff_and]
  omega

theorem IsNumber.lt_of_not_le (hx : x.IsNumber) (hy : y.IsNumber) (h : ¬ x ≤ y) : y < x := by
  rw [hx.le_iff hy] at h
  rw [hy.lt_iff hx]
  omega

/-- The larger of a number and another, if that is a number, is at least each. -/
theorem IsNumber.rank_max (hx : x.IsNumber) (y : Double) : (x.max y).IsNumber ∧
    (x.max y).rank = if y.isNaN then x.rank else Max.max x.rank y.rank := by
  rw [Double.max, show x.isNaN = false from hx, if_neg Bool.false_ne_true]
  split
  · exact ⟨hx, rfl⟩
  · rename_i hy
    rw [Bool.not_eq_true] at hy
    split
    · rename_i hle
      rw [IsNumber.le_iff hx hy] at hle
      exact ⟨hy, by omega⟩
    · rename_i hle
      rw [IsNumber.le_iff hx hy] at hle
      exact ⟨hx, by omega⟩

theorem IsNumber.rank_min (hx : x.IsNumber) (y : Double) : (x.min y).IsNumber ∧
    (x.min y).rank = if y.isNaN then x.rank else Min.min x.rank y.rank := by
  rw [Double.min, show x.isNaN = false from hx, if_neg Bool.false_ne_true]
  split
  · exact ⟨hx, rfl⟩
  · rename_i hy
    rw [Bool.not_eq_true] at hy
    split
    · rename_i hle
      rw [IsNumber.le_iff hy hx] at hle
      exact ⟨hy, by omega⟩
    · rename_i hle
      rw [IsNumber.le_iff hy hx] at hle
      exact ⟨hx, by omega⟩

theorem IsNumber.le_max_left (hx : x.IsNumber) (y : Double) : x ≤ x.max y := by
  obtain ⟨hmax, hrank⟩ := hx.rank_max y
  rw [hx.le_iff hmax, hrank]
  split <;> omega

theorem IsNumber.min_le_left (hx : x.IsNumber) (y : Double) : x.min y ≤ x := by
  obtain ⟨hmin, hrank⟩ := hx.rank_min y
  rw [IsNumber.le_iff hmin hx, hrank]
  split <;> omega

theorem max_mono {x' : Double} (h : x ≤ x') (y : Double) : x.max y ≤ x'.max y := by
  obtain ⟨⟨hx, hx'⟩, hle⟩ := le_iff_and.1 h
  obtain ⟨hmax, hrank⟩ := hx.rank_max y
  obtain ⟨hmax', hrank'⟩ := hx'.rank_max y
  rw [IsNumber.le_iff hmax hmax', hrank, hrank']
  split <;> omega

theorem min_mono {x' : Double} (h : x ≤ x') (y : Double) : x.min y ≤ x'.min y := by
  obtain ⟨⟨hx, hx'⟩, hle⟩ := le_iff_and.1 h
  obtain ⟨hmin, hrank⟩ := hx.rank_min y
  obtain ⟨hmin', hrank'⟩ := hx'.rank_min y
  rw [IsNumber.le_iff hmin hmin', hrank, hrank']
  split <;> omega

/-- The larger of a number and another is at most `z` if both are; what is no number does not matter.
-/
theorem IsNumber.max_le_iff {z : Double} (hx : x.IsNumber) :
    x.max y ≤ z ↔ x ≤ z ∧ (y.IsNumber → y ≤ z) := by
  obtain ⟨hmax, hrank⟩ := hx.rank_max y
  rw [le_iff_and, le_iff_and, le_iff_and, hrank]
  by_cases hy : y.IsNumber
  · rw [if_neg (Bool.eq_false_iff.1 hy)]
    simp only [hmax, hx, hy, true_and, true_implies, Int.max_le]
    exact and_and_left
  · rw [if_pos (Bool.of_not_eq_false hy)]
    simp only [hmax, hx, hy, true_and, false_implies, and_true]

theorem IsNumber.le_min_iff {z : Double} (hx : x.IsNumber) :
    z ≤ x.min y ↔ z ≤ x ∧ (y.IsNumber → z ≤ y) := by
  obtain ⟨hmin, hrank⟩ := hx.rank_min y
  rw [le_iff_and, le_iff_and, le_iff_and, hrank]
  by_cases hy : y.IsNumber
  · rw [if_neg (Bool.eq_false_iff.1 hy)]
    simp only [hmin, hx, hy, and_true, true_implies, Int.le_min]
    exact and_and_left
  · rw [if_pos (Bool.of_not_eq_false hy)]
    simp only [hmin, hx, hy, and_true, false_implies]

protected theorem max_le {z : Double} (hx : x ≤ z) (hy : y ≤ z) : x.max y ≤ z := by
  rw [Double.max]
  split
  · exact hy
  split
  · exact hx
  split
  · exact hy
  · exact hx

/-- A number that is not at least `t` is below all that is. -/
theorem IsNumber.lt_of_le {t : Double} (hx : x.IsNumber) (htx : ¬t ≤ x) (hty : t ≤ y) : x < y := by
  obtain ⟨⟨ht, hy⟩, hle⟩ := le_iff_and.1 hty
  rw [ht.le_iff hx, Int.not_le] at htx
  exact (hx.lt_iff hy).2 (Int.lt_of_lt_of_le htx hle)

/-! ### The lowest of some numbers -/

/-- The lowest member of a list, by rank. -/
structure IsLowest (xs : List Double) (x : Double) : Prop where
  mem : x ∈ xs
  le : ∀ y ∈ xs, x.rank ≤ y.rank

theorem isLowest_foldl_min : ∀ {xs : List Double} {x : Double}, x.IsNumber →
    (∀ y ∈ xs, y.IsNumber) → IsLowest (x :: xs) (xs.foldl Double.min x)
  | [], x, _, _ => ⟨List.mem_cons_self, by simp⟩
  | y :: xs, x, hx, hxs => by
    obtain ⟨hy, hxs⟩ := List.forall_mem_cons.1 hxs
    rw [List.foldl_cons]
    rcases hx.min_cases hy with ⟨heq, hle⟩ | ⟨heq, hle⟩
    · rw [heq]
      obtain ⟨hmem, hlow⟩ := isLowest_foldl_min hx hxs
      rw [List.forall_mem_cons] at hlow
      refine ⟨?_, ?_⟩
      · rw [List.mem_cons] at hmem ⊢
        exact hmem.imp_right (List.mem_cons_of_mem y)
      · rw [List.forall_mem_cons, List.forall_mem_cons]
        exact ⟨hlow.1, Int.le_trans hlow.1 hle, hlow.2⟩
    · rw [heq]
      obtain ⟨hmem, hlow⟩ := isLowest_foldl_min hy hxs
      refine ⟨List.mem_cons_of_mem x hmem, ?_⟩
      rw [List.forall_mem_cons]
      exact ⟨Int.le_trans (hlow y List.mem_cons_self) hle, hlow⟩

theorem isLowest_reduce {xs : List Double} (hne : xs ≠ []) (hxs : ∀ y ∈ xs, y.IsNumber)
    (d : Double) : IsLowest xs ((reduce? Double.min xs).getD d) := by
  cases xs with
  | nil => exact absurd rfl hne
  | cons x xs =>
    obtain ⟨hx, hxs⟩ := List.forall_mem_cons.1 hxs
    exact isLowest_foldl_min hx hxs

/-- The order of numbers does not matter for the lowest. -/
theorem rank_reduce_of_perm {xs ys : List Double} (hxs : ∀ y ∈ xs, y.IsNumber) (h : xs.Perm ys)
    (d : Double) :
    ((reduce? Double.min xs).getD d).rank = ((reduce? Double.min ys).getD d).rank := by
  by_cases hne : xs = []
  · rw [hne] at h ⊢
    rw [← h.nil_eq]
  · have hx := isLowest_reduce hne hxs d
    have hy := isLowest_reduce (fun hnil => hne (List.perm_nil.1 (hnil ▸ h)))
      (fun y hy => hxs y (h.mem_iff.2 hy)) d
    exact Int.le_antisymm (hx.le _ (h.mem_iff.2 hy.mem)) (hy.le _ (h.mem_iff.1 hx.mem))

end Muster.Double
