import Mathlib.Tactic
import Muster.Double.Arithmetic

/-!
Rounding to doubles. A finite magnitude `m` is `s * fractionSize + t` and stands for `t * 2 ^ s`
units, with `t` below `2 * fractionSize` and, unless `s` is zero, not below `fractionSize`. Rounding
finds `s` from the whole part of a ratio and rounds the rest to `t`, so it is monotone, it gives a
magnitude back for its own units, and it passes a magnitude just if the ratio is past the middle
between it and the next.

Main statements: `magnitudeOfRatio_mono`, `magnitudeOfRatio_units`, `lt_magnitudeOfRatio`.
-/

namespace Muster.Double

/-! ### Rounding to whole numbers -/

section RoundHalfEven

variable {a d q : Nat}

theorem le_roundHalfEven (hd : 0 < d) (h : q * d ≤ a) : q ≤ roundHalfEven a d := by
  have hq : q ≤ a / d := (Nat.le_div_iff_mul_le hd).2 h
  simp only [roundHalfEven]
  split_ifs <;> omega

theorem roundHalfEven_le_succ (a d : Nat) : roundHalfEven a d ≤ a / d + 1 := by
  simp only [roundHalfEven]
  split_ifs <;> omega

theorem roundHalfEven_le (hd : 0 < d) (h : a ≤ q * d) : roundHalfEven a d ≤ q := by
  have hq : a / d ≤ q := Nat.div_le_of_le_mul (by rwa [Nat.mul_comm])
  rcases Nat.lt_or_eq_of_le hq with hlt | heq
  · exact (roundHalfEven_le_succ a d).trans hlt
  · have hmod := Nat.div_add_mod a d
    rw [heq, Nat.mul_comm] at hmod
    have hr : a % d = 0 := by omega
    simp only [roundHalfEven, heq, hr]
    rw [if_pos (by omega)]

theorem roundHalfEven_mul (hd : 0 < d) (q : Nat) : roundHalfEven (q * d) d = q :=
  Nat.le_antisymm (roundHalfEven_le hd (Nat.le_refl _)) (le_roundHalfEven hd (Nat.le_refl _))

/-- Past the middle the larger number is taken. -/
theorem lt_roundHalfEven (hd : 0 < d) (h : (2 * q + 1) * d < 2 * a) : q < roundHalfEven a d := by
  have hq : q * d ≤ a := by nlinarith
  rcases Nat.lt_or_eq_of_le ((Nat.le_div_iff_mul_le hd).2 hq) with hlt | heq
  · exact lt_of_lt_of_le hlt (le_roundHalfEven hd (Nat.div_mul_le_self a d))
  · have hmod := Nat.div_add_mod a d
    rw [← heq] at hmod
    have hr : d < 2 * (a % d) := by nlinarith
    simp only [roundHalfEven, ← heq]
    rw [if_neg (by omega), if_pos hr]
    exact Nat.lt_succ_self q

theorem roundHalfEven_mono {a' d' : Nat} (hd : 0 < d) (hd' : 0 < d') (h : a * d' ≤ a' * d) :
    roundHalfEven a d ≤ roundHalfEven a' d' := by
  have hmod := Nat.div_add_mod a d
  have hmod' := Nat.div_add_mod a' d'
  have hq : a / d ≤ a' / d' := by
    refine (Nat.le_div_iff_mul_le hd').2 (Nat.le_of_mul_le_mul_right ?_ hd)
    calc a / d * d' * d = a / d * d * d' := Nat.mul_right_comm ..
      _ ≤ a * d' := Nat.mul_le_mul_right _ (Nat.div_mul_le_self a d)
      _ ≤ a' * d := h
  rcases Nat.lt_or_eq_of_le hq with hlt | heq
  · have hle := roundHalfEven_le_succ a d
    have hle' := le_roundHalfEven hd' (Nat.div_mul_le_self a' d')
    omega
  · have hr : a % d * d' ≤ a' % d' * d := by
      rw [← heq] at hmod'
      have h1 : a * d' = d * (a / d) * d' + a % d * d' := by rw [← Nat.add_mul, hmod]
      have h2 : a' * d = d' * (a / d) * d + a' % d' * d := by rw [← Nat.add_mul, hmod']
      have h3 : d * (a / d) * d' = d' * (a / d) * d := by ring
      omega
    simp only [roundHalfEven, ← heq]
    -- the remainders are compared as parts of their divisors
    have hup : d < 2 * (a % d) → d' < 2 * (a' % d') := fun h => by nlinarith
    have hhalf : d ≤ 2 * (a % d) → d' ≤ 2 * (a' % d') := fun h => by nlinarith
    split_ifs <;> omega

end RoundHalfEven

/-! ### The shape of magnitudes -/

theorem fractionSize_eq : fractionSize = 2 ^ 52 := by decide

theorem fractionSize_pos : 0 < fractionSize := by decide

/-- A number of `2 ^ s` units with a leading bit, unless `s` is zero. -/
structure IsMantissa (s t : Nat) : Prop where
  lt : t < 2 * fractionSize
  le : s ≠ 0 → fractionSize ≤ t

theorem unitsOfMagnitude_eq {s t : Nat} (h : IsMantissa s t) :
    unitsOfMagnitude (s * fractionSize + t) = t * 2 ^ s := by
  have hpos := fractionSize_pos
  rw [unitsOfMagnitude]
  by_cases hs : s = 0
  · subst hs
    rw [Nat.zero_mul, Nat.zero_add, pow_zero, Nat.mul_one]
    split
    · rfl
    · rename_i hle
      have hdiv : t / fractionSize = 1 := by
        rw [Nat.div_eq_iff hpos]
        have := h.lt
        omega
      have hmod := Nat.div_add_mod t fractionSize
      rw [hdiv] at hmod
      simp only [hdiv]
      show (fractionSize + t % fractionSize) * 1 = t
      omega
  · have hle := h.le hs
    have hlt := h.lt
    obtain ⟨t, rfl⟩ : ∃ u, t = fractionSize + u := ⟨t - fractionSize, by omega⟩
    have hsum : s * fractionSize + (fractionSize + t) = t + fractionSize * (s + 1) := by ring
    have hdiv : (s * fractionSize + (fractionSize + t)) / fractionSize = s + 1 := by
      rw [hsum, Nat.add_mul_div_left _ _ hpos, Nat.div_eq_of_lt (by omega), Nat.zero_add]
    have hmod : (s * fractionSize + (fractionSize + t)) % fractionSize = t := by
      rw [hsum, Nat.add_mul_mod_self_left, Nat.mod_eq_of_lt (by omega)]
    rw [if_neg (by nlinarith), hdiv, hmod, Nat.add_sub_cancel]
    rfl

/-- Every magnitude has such a shape. -/
theorem exists_isMantissa (m : Nat) : ∃ s t, IsMantissa s t ∧ m = s * fractionSize + t := by
  have hpos := fractionSize_pos
  by_cases hm : m < fractionSize
  · exact ⟨0, m, ⟨by omega, fun h => absurd rfl h⟩, by omega⟩
  · have hdiv := Nat.div_add_mod m fractionSize
    have hmod := Nat.mod_lt m hpos
    have hone : 1 ≤ m / fractionSize := (Nat.one_le_div_iff hpos).2 (by omega)
    obtain ⟨s, hs⟩ : ∃ s, m / fractionSize = s + 1 := ⟨m / fractionSize - 1, by omega⟩
    refine ⟨s, fractionSize + m % fractionSize, ⟨by omega, fun _ => by omega⟩, ?_⟩
    rw [hs, Nat.mul_add, Nat.mul_one, Nat.mul_comm] at hdiv
    omega

/-- The exponent that rounding uses for a whole part. -/
def shiftOf (k : Nat) : Nat := k.log2 + 1 - 53

theorem magnitudeOfRatio_eq (num den : Nat) : magnitudeOfRatio num den =
    Nat.min (shiftOf (num / den) * fractionSize +
      roundHalfEven num (den * 2 ^ shiftOf (num / den))) infinityMagnitude := rfl

theorem lt_shiftOf (k : Nat) : k < 2 * fractionSize * 2 ^ shiftOf k := by
  have hlog := Nat.lt_log2_self (n := k)
  have hpow : 2 ^ (k.log2 + 1) ≤ 2 ^ (53 + shiftOf k) :=
    Nat.pow_le_pow_right (by decide) (by rw [shiftOf]; omega)
  have hsplit : 2 ^ (53 + shiftOf k) = 2 * fractionSize * 2 ^ shiftOf k := Nat.pow_add ..
  exact lt_of_lt_of_le hlog (hpow.trans_eq hsplit)

theorem shiftOf_le {k : Nat} (h : shiftOf k ≠ 0) : fractionSize * 2 ^ shiftOf k ≤ k := by
  have hk : k ≠ 0 := by
    rintro rfl
    exact h rfl
  have hlog := Nat.log2_self_le hk
  have hsum : k.log2 = 52 + shiftOf k := by
    rw [shiftOf] at h ⊢
    omega
  rwa [hsum, Nat.pow_add, ← fractionSize_eq] at hlog

theorem log2_mono {k k' : Nat} (h : k ≤ k') : k.log2 ≤ k'.log2 := by
  by_cases hk : k = 0
  · rw [hk]
    exact Nat.zero_le _
  · exact (Nat.le_log2 (by omega)).2 ((Nat.log2_self_le hk).trans h)

theorem shiftOf_mono {k k' : Nat} (h : k ≤ k') : shiftOf k ≤ shiftOf k' := by
  have := log2_mono h
  rw [shiftOf, shiftOf]
  omega

/-- The shift is found again from any number between the least of its shape and the next. -/
theorem shiftOf_eq {s t k : Nat} (h : IsMantissa s t) (hle : t * 2 ^ s ≤ k)
    (hlt : k < (t + 1) * 2 ^ s) : shiftOf k = s := by
  have hpow : 0 < 2 ^ s := Nat.two_pow_pos s
  have hupper : k < 2 ^ (53 + s) := by
    refine lt_of_lt_of_le hlt ?_
    rw [Nat.pow_add]
    exact Nat.mul_le_mul_right _ h.lt
  have hlog : k.log2 < 53 + s := by
    by_cases hk : k = 0
    · rw [hk]
      exact Nat.lt_of_lt_of_le (by decide) (Nat.le_add_right 53 s)
    · exact (Nat.log2_lt hk).2 hupper
  by_cases hs : s = 0
  · rw [shiftOf]
    omega
  · have hlower : 2 ^ (52 + s) ≤ k := by
      rw [Nat.pow_add, ← fractionSize_eq]
      exact (Nat.mul_le_mul_right _ (h.le hs)).trans hle
    have hk : k ≠ 0 := by
      have := Nat.two_pow_pos (52 + s)
      omega
    have hge : 52 + s ≤ k.log2 := (Nat.le_log2 hk).2 hlower
    rw [shiftOf]
    omega

/-! ### Rounding to magnitudes -/

section Ratio

variable {num den num' den' : Nat}

theorem mul_two_pow_shiftOf_pos (hd : 0 < den) : 0 < den * 2 ^ shiftOf (num / den) :=
  Nat.mul_pos hd (Nat.two_pow_pos _)

/-- What is rounded has at most one bit too many, and that only if it is the next power of two. -/
theorem roundHalfEven_le_top (num : Nat) (hd : 0 < den) :
    roundHalfEven num (den * 2 ^ shiftOf (num / den)) ≤ 2 * fractionSize := by
  refine roundHalfEven_le (mul_two_pow_shiftOf_pos hd) ?_
  have hlt : num < (num / den + 1) * den := by
    rw [Nat.add_mul, Nat.one_mul, Nat.mul_comm]
    have := Nat.div_add_mod num den
    have := Nat.mod_lt num hd
    omega
  calc num ≤ (num / den + 1) * den := hlt.le
    _ ≤ 2 * fractionSize * 2 ^ shiftOf (num / den) * den :=
        Nat.mul_le_mul_right _ (lt_shiftOf (num / den))
    _ = 2 * fractionSize * (den * 2 ^ shiftOf (num / den)) := by ring

theorem fractionSize_le_roundHalfEven (num : Nat) (hd : 0 < den) (h : shiftOf (num / den) ≠ 0) :
    fractionSize ≤ roundHalfEven num (den * 2 ^ shiftOf (num / den)) := by
  refine le_roundHalfEven (mul_two_pow_shiftOf_pos hd) ?_
  calc fractionSize * (den * 2 ^ shiftOf (num / den))
      = fractionSize * 2 ^ shiftOf (num / den) * den := by ring
    _ ≤ num / den * den := Nat.mul_le_mul_right _ (shiftOf_le h)
    _ ≤ num := Nat.div_mul_le_self num den

/-- A larger ratio never gets a smaller magnitude. -/
theorem magnitudeOfRatio_mono (hd : 0 < den) (hd' : 0 < den') (h : num * den' ≤ num' * den) :
    magnitudeOfRatio num den ≤ magnitudeOfRatio num' den' := by
  rw [magnitudeOfRatio_eq, magnitudeOfRatio_eq]
  refine min_le_min_right _ ?_
  have hwhole : num / den ≤ num' / den' := by
    refine (Nat.le_div_iff_mul_le hd').2 (Nat.le_of_mul_le_mul_right ?_ hd)
    calc num / den * den' * den = num / den * den * den' := Nat.mul_right_comm ..
      _ ≤ num * den' := Nat.mul_le_mul_right _ (Nat.div_mul_le_self num den)
      _ ≤ num' * den := h
  rcases Nat.lt_or_eq_of_le (shiftOf_mono hwhole) with hlt | heq
  · have htop := roundHalfEven_le_top num hd
    have hleast := fractionSize_le_roundHalfEven num' hd' (by omega)
    have hstep := Nat.mul_le_mul_right fractionSize (Nat.succ_le_of_lt hlt)
    rw [Nat.succ_mul] at hstep
    omega
  · refine Nat.add_le_add (by rw [heq]) ?_
    refine roundHalfEven_mono (mul_two_pow_shiftOf_pos hd) (mul_two_pow_shiftOf_pos hd') ?_
    rw [heq, ← Nat.mul_assoc, ← Nat.mul_assoc]
    exact Nat.mul_le_mul_right _ h

theorem magnitudeOfRatio_le (num den : Nat) : magnitudeOfRatio num den ≤ infinityMagnitude :=
  Nat.min_le_right ..

/-- Only the ratio matters. -/
theorem magnitudeOfRatio_congr (hd : 0 < den) (hd' : 0 < den') (h : num * den' = num' * den) :
    magnitudeOfRatio num den = magnitudeOfRatio num' den' :=
  Nat.le_antisymm (magnitudeOfRatio_mono hd hd' h.le) (magnitudeOfRatio_mono hd' hd h.ge)

/-- The units of a magnitude are rounded back to it. -/
theorem magnitudeOfRatio_units {m : Nat} (hm : m ≤ infinityMagnitude) :
    magnitudeOfRatio (unitsOfMagnitude m) 1 = m := by
  obtain ⟨s, t, ht, rfl⟩ := exists_isMantissa m
  have hpos := Nat.two_pow_pos s
  rw [unitsOfMagnitude_eq ht, magnitudeOfRatio_eq, Nat.div_one,
    shiftOf_eq ht (Nat.le_refl _) (Nat.mul_lt_mul_of_pos_right (Nat.lt_succ_self t) hpos),
    Nat.one_mul, roundHalfEven_mul hpos]
  exact Nat.min_eq_left hm

/-- A ratio past the middle between a magnitude and the next does not get that magnitude. -/
theorem lt_magnitudeOfRatio {s t : Nat} (hd : 0 < den) (ht : IsMantissa s t)
    (hm : s * fractionSize + t < infinityMagnitude)
    (h : (2 * t + 1) * (den * 2 ^ s) < 2 * num) :
    s * fractionSize + t < magnitudeOfRatio num den := by
  rw [magnitudeOfRatio_eq]
  refine lt_min ?_ hm
  have hpos := Nat.two_pow_pos s
  have hwhole : t * 2 ^ s ≤ num / den := by
    refine (Nat.le_div_iff_mul_le hd).2 ?_
    nlinarith
  have hshift : s ≤ shiftOf (num / den) := by
    have := shiftOf_mono hwhole
    rwa [shiftOf_eq ht (Nat.le_refl _)
      (Nat.mul_lt_mul_of_pos_right (Nat.lt_succ_self t) hpos)] at this
  rcases Nat.lt_or_eq_of_le hshift with hlt | heq
  · have hleast := fractionSize_le_roundHalfEven num hd (by omega)
    have hstep := Nat.mul_le_mul_right fractionSize (Nat.succ_le_of_lt hlt)
    rw [Nat.succ_mul] at hstep
    have := ht.lt
    omega
  · rw [← heq]
    exact Nat.add_lt_add_left (lt_roundHalfEven (Nat.mul_pos hd hpos) h) _

end Ratio

/-! ### The order of magnitudes -/

section Order

variable {m m' : Nat}

theorem unitsOfMagnitude_le_iff (hm : m ≤ infinityMagnitude) (hm' : m' ≤ infinityMagnitude) :
    unitsOfMagnitude m ≤ unitsOfMagnitude m' ↔ m ≤ m' := by
  have hmono : ∀ {a b}, a ≤ infinityMagnitude → b ≤ infinityMagnitude →
      unitsOfMagnitude a ≤ unitsOfMagnitude b → a ≤ b := by
    intro a b ha hb h
    have := magnitudeOfRatio_mono Nat.one_pos Nat.one_pos (Nat.mul_le_mul_right 1 h)
    rwa [magnitudeOfRatio_units ha, magnitudeOfRatio_units hb] at this
  refine ⟨hmono hm hm', fun h => ?_⟩
  rcases Nat.le_total (unitsOfMagnitude m) (unitsOfMagnitude m') with hle | hle
  · exact hle
  · exact (congrArg unitsOfMagnitude (Nat.le_antisymm h (hmono hm' hm hle))).le

/-- Rounding down to a magnitude needs no more than its units. -/
theorem le_magnitudeOfRatio {num den : Nat} (hd : 0 < den) (hm : m ≤ infinityMagnitude)
    (h : unitsOfMagnitude m * den ≤ num) : m ≤ magnitudeOfRatio num den := by
  rw [← magnitudeOfRatio_units hm]
  exact magnitudeOfRatio_mono Nat.one_pos hd (by rwa [Nat.mul_one])

theorem magnitudeOfRatio_zero (hd : 0 < den) : magnitudeOfRatio 0 den = 0 := by
  have hunits : unitsOfMagnitude 0 = 0 := if_pos fractionSize_pos
  have hcongr : magnitudeOfRatio 0 den = magnitudeOfRatio (unitsOfMagnitude 0) 1 :=
    magnitudeOfRatio_congr hd Nat.one_pos (by rw [hunits, Nat.zero_mul, Nat.zero_mul])
  exact hcongr.trans (magnitudeOfRatio_units (Nat.zero_le _))

end Order

end Muster.Double
