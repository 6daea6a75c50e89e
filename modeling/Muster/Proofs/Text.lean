import Muster.Search.Monitor

/-!
Texts between quotes. Every character of such a text leaves a mark of its own and does not extend
the one before it, whatever was quoted: characters for which that does not hold are written by their
code points, in letters, digits and signs of ASCII.

Main statements: `isSeen_iff`, `isSeen_of_mem_quoted`, `isSeen_of_mem_recordText`.
-/

namespace Muster

/-- Whether a character is seen by itself: it is in none of the ranges of those that leave no mark
and of those that extend the character before. -/
def IsSeen (c : Char) : Prop :=
  ∀ r ∈ unseenRanges ++ extenderRanges, c.toNat < r.1 ∨ r.2 < c.toNat

/-- The lookup in ascending ranges, which stops early, misses none of them. -/
theorem isSeen_iff {c : Char} : IsSeen c ↔ isUnseen c = false ∧ isExtender c = false := by
  have hcovers : ∀ {rs : CodeRanges} {m : Nat}, rs.ascendFrom m →
      (rs.covers c.toNat = false ↔ ∀ r ∈ rs, c.toNat < r.1 ∨ r.2 < c.toNat) := by
    intro rs m h
    rw [Bool.eq_false_iff, Ne, CodeRanges.covers_iff h]
    simp only [not_exists, not_and, Nat.not_le]
    refine forall_congr' fun r => imp_congr_right fun _ => ?_
    omega
  rw [isUnseen, isExtender, hcovers unseenRanges_ascend, hcovers extenderRanges_ascend, IsSeen,
    List.forall_mem_append]

/-- Whether a character is one of ASCII from the space to the tilde. -/
def IsPlain (c : Char) : Prop := 32 ≤ c.toNat ∧ c.toNat < 127

instance (c : Char) : Decidable (IsPlain c) := inferInstanceAs (Decidable (_ ∧ _))

theorem IsPlain.isSeen {c : Char} (h : IsPlain c) : IsSeen c := by
  refine isSeen_iff.2 ⟨isUnseen_eq_false h.1 h.2, ?_⟩
  rw [Bool.eq_false_iff, isExtender, Ne, CodeRanges.covers_iff extenderRanges_ascend]
  rintro ⟨r, hr, hle, -⟩
  have hfirst := CodeRanges.le_of_mem extenderRanges_ascend r hr
  have hplain := h.2
  omega

theorem isPlain_of_all {s : String} (h : s.toList.all fun c => decide (IsPlain c)) {c : Char}
    (hc : c ∈ s.toList) : IsPlain c := of_decide_eq_true (List.all_eq_true.1 h c hc)

theorem isPlain_of_mem_toDigits (n : Nat) : ∀ c ∈ Nat.toDigits 16 n, IsPlain c := by
  have hdigit : ∀ d < 16, IsPlain (Nat.digitChar d) := by decide
  induction n using Nat.strongRecOn with
  | ind n ih =>
    rw [Nat.toDigits_eq_if (by decide)]
    split
    · rename_i hlt
      simpa using hdigit n hlt
    · intro c hc
      rcases List.mem_append.1 hc with hc | hc
      · exact ih (n / 16) (by omega) c hc
      · rw [List.mem_singleton.1 hc]
        exact hdigit (n % 16) (Nat.mod_lt n (by decide))

theorem isPlain_of_mem_codeEscape {c d : Char} (h : d ∈ (codeEscape c).toList) : IsPlain d := by
  simp only [codeEscape, String.toList_append, String.toList_ofList, List.mem_append] at h
  rcases h with (h | h) | h
  · exact isPlain_of_all (by decide) h
  · exact isPlain_of_mem_toDigits c.toNat d h
  · exact isPlain_of_all (by decide) h

/-- What stands for a character between quotes is seen. -/
theorem isSeen_of_mem_escaped {c d : Char} (h : d ∈ (escaped c).toList) : IsSeen d := by
  unfold escaped at h
  split at h
  case h_7 =>
    split at h
    · exact (isPlain_of_mem_codeEscape h).isSeen
    · rename_i hseen
      rw [Bool.or_eq_true, not_or, Bool.not_eq_true, Bool.not_eq_true] at hseen
      obtain rfl : d = c := by simpa using h
      exact isSeen_iff.2 hseen.symm
  all_goals exact (isPlain_of_all (by decide) h).isSeen

/-- Whatever is in a text, between quotes every character is seen. -/
theorem isSeen_of_mem_quoted {s : String} {c : Char} (h : c ∈ (quoted s).toList) : IsSeen c := by
  simp only [quoted, String.toList_append, String.toList_join, List.mem_append, List.mem_flatMap,
    List.mem_map] at h
  rcases h with (h | ⟨_, ⟨d, -, rfl⟩, h⟩) | h
  · exact (isPlain_of_all (by decide) h).isSeen
  · exact isSeen_of_mem_escaped h
  · exact (isPlain_of_all (by decide) h).isSeen

/-- The record of a composite monitor shows the names of its members with every character seen. -/
theorem isSeen_of_mem_recordText {ms : List Monitor} {c : Char}
    (h : c ∈ (Monitor.composite ms).recordText.toList) : IsSeen c := by
  simp only [Monitor.recordText, Monitor.name, String.toList_append, List.mem_append] at h
  rcases h with ((h | h) | h) | h
  · exact (isPlain_of_all (by decide) h).isSeen
  · exact (isPlain_of_all (by decide) h).isSeen
  · exact isSeen_of_mem_quoted h
  · exact (isPlain_of_all (by decide) h).isSeen

end Muster
