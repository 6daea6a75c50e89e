/-!
Sets of characters, given by ascending ranges of code points.

Main statement: `covers_iff`.
-/

namespace Muster

/-- Ranges of code points, each by its first and its last. -/
abbrev CodeRanges := List (Nat × Nat)

namespace CodeRanges

/-- Whether the ranges ascend, the first one not below `n`, with gaps between them. -/
def ascendFrom : Nat → CodeRanges → Bool
  | _, [] => true
  | n, r :: rest => decide (n ≤ r.1) && decide (r.1 ≤ r.2) && ascendFrom (r.2 + 2) rest

/-- Whether a code point is in one of the ranges; none after the first that begins above it is. -/
def covers : CodeRanges → Nat → Bool
  | [], _ => false
  | r :: rest, n => decide (r.1 ≤ n) && (decide (n ≤ r.2) || covers rest n)

theorem le_of_mem {rs : CodeRanges} {n : Nat} (h : ascendFrom n rs) : ∀ r ∈ rs, n ≤ r.1 := by
  induction rs generalizing n with
  | nil => simp
  | cons s rest ih =>
    simp only [ascendFrom, Bool.and_eq_true, decide_eq_true_eq] at h
    intro r hr
    rcases List.mem_cons.1 hr with rfl | hr
    · exact h.1.1
    · have := ih h.2 r hr
      omega

theorem covers_iff {rs : CodeRanges} {m : Nat} (h : ascendFrom m rs) (n : Nat) :
    rs.covers n ↔ ∃ r ∈ rs, r.1 ≤ n ∧ n ≤ r.2 := by
  induction rs generalizing m with
  | nil => simp [covers]
  | cons s rest ih =>
    simp only [ascendFrom, Bool.and_eq_true, decide_eq_true_eq] at h
    simp only [covers, Bool.and_eq_true, Bool.or_eq_true, decide_eq_true_eq, ih h.2,
      List.mem_cons, exists_eq_or_imp]
    constructor
    · rintro ⟨h1, h2 | h2⟩
      · exact .inl ⟨h1, h2⟩
      · exact .inr h2
    · rintro (h1 | ⟨r, hr, h1, h2⟩)
      · exact ⟨h1.1, .inl h1.2⟩
      · have := le_of_mem h.2 r hr
        exact ⟨by omega, .inr ⟨r, hr, h1, h2⟩⟩

end CodeRanges
end Muster
