import Muster.Proofs.Double.Multiple

/-!
The doubles next to a double. The other sign turns the order of numbers around, and the least double
above a number has the next rank: past the last negative magnitude comes a zero, and past the
greatest finite one infinity. So a number is less than another just if the least double above it is
not above the other, except at infinity, which has no double above it and stays.

Main statements: `rank_neg`, `rank_nextAbove`, `nextAbove_le_iff`, `le_nextBelow_iff`.
-/

namespace Muster.Double

variable {x y : Double}

/-! ### The other sign -/

theorem bits_neg (x : Double) : x.neg.bits.toNat = x.bits.toNat ^^^ 2 ^ 63 :=
  UInt64.toNat_xor x.bits 0x8000000000000000

theorem magnitude_neg (x : Double) : x.neg.magnitude = x.magnitude := by
  rw [magnitude, magnitude, show signBit = 2 ^ 63 from rfl, bits_neg, Nat.xor_mod_two_pow,
    Nat.mod_self, Nat.xor_zero]

theorem isNegative_iff_div (x : Double) : x.isNegative = true ↔ x.bits.toNat / 2 ^ 63 = 1 := by
  have hlt := x.bits.toNat_lt
  rw [isNegative, decide_eq_true_iff, show signBit = 2 ^ 63 from rfl]
  omega

theorem isNegative_neg (x : Double) : x.neg.isNegative = !x.isNegative := by
  have hlt := x.bits.toNat_lt
  have hdiv : x.bits.toNat / 2 ^ 63 = 0 ∨ x.bits.toNat / 2 ^ 63 = 1 := by omega
  rw [Bool.eq_not_iff, ne_eq, Bool.eq_iff_iff, isNegative_iff_div, isNegative_iff_div, bits_neg,
    Nat.xor_div_two_pow, Nat.div_self (by decide)]
  rcases hdiv with h | h <;> rw [h] <;> decide

theorem isNumber_neg_iff : x.neg.IsNumber ↔ x.IsNumber := by
  rw [IsNumber, IsNumber, isNaN, isNaN, magnitude_neg]

theorem rank_neg (x : Double) : x.neg.rank = -x.rank := by
  rw [rank, rank, magnitude_neg, isNegative_neg]
  cases x.isNegative with
  | false => rfl
  | true => exact (Int.neg_neg _).symm

theorem neg_neg (x : Double) : x.neg.neg = x := by
  have h : x.bits ^^^ 0x8000000000000000 ^^^ 0x8000000000000000 = x.bits := by
    rw [UInt64.xor_assoc, UInt64.xor_self, UInt64.xor_zero]
  exact congrArg Double.mk h

/-- The other sign turns the order around. -/
theorem le_neg_iff : x ≤ y.neg ↔ y ≤ x.neg := by
  rw [le_iff_and, le_iff_and, isNumber_neg_iff, isNumber_neg_iff, rank_neg, rank_neg]
  exact and_congr and_comm (by omega)

theorem neg_lt_neg_iff : y.neg < x.neg ↔ x < y := by
  rw [lt_iff_and, lt_iff_and, isNumber_neg_iff, isNumber_neg_iff, rank_neg, rank_neg]
  exact and_congr and_comm (by omega)

theorem neg_eq_infinity_iff : x.neg = infinity ↔ x = negInfinity := by
  have hneg : infinity.neg = negInfinity ∧ negInfinity.neg = infinity := by decide
  constructor
  · intro h
    rw [← neg_neg x, h, hneg.1]
  · rintro rfl
    exact hneg.2

/-! ### The double above -/

theorem rank_ofMagnitude {m : Nat} (negative : Bool) (hm : m ≤ infinityMagnitude) :
    (ofMagnitude negative m).IsNumber ∧
      (ofMagnitude negative m).rank = if negative then -(m : Int) else m := by
  rw [IsNumber, isNaN, rank, isNegative_ofMagnitude negative hm,
    magnitude_ofMagnitude_signed negative hm]
  exact ⟨decide_eq_false (Nat.not_lt_of_le hm), rfl⟩

/-- The magnitude of a negative number goes down, that of any other up; zeros of both signs go to
the least positive double. -/
theorem nextAbove_eq (hx : x.IsNumber) (hne : x ≠ infinity) : x.nextAbove =
    if x.isNegative = true ∧ x.magnitude ≠ 0 then ofMagnitude true (x.magnitude - 1)
    else ofMagnitude false (x.magnitude + 1) := by
  have hbits := toNat_bits x
  have hlimit : signBit + signBit = 2 ^ 64 := by decide
  have hbound : x.magnitude < signBit := Nat.mod_lt _ (by decide)
  have hguard : (x.isNaN || x == infinity) = false := by
    rw [show x.isNaN = false from hx, Bool.false_or, beq_eq_false_iff_ne]
    exact hne
  rw [nextAbove, hguard, if_neg Bool.false_ne_true, isZero]
  by_cases hzero : x.magnitude = 0
  · simp [hzero, ofMagnitude]
  rw [decide_eq_false hzero, if_neg Bool.false_ne_true]
  cases hneg : x.isNegative with
  | true =>
    rw [hneg, if_pos rfl] at hbits
    have hone : (1 : UInt64) ≤ x.bits := by
      rw [UInt64.le_iff_toNat_le, hbits, UInt64.toNat_one]
      omega
    rw [if_pos rfl, if_pos ⟨rfl, hzero⟩, ofMagnitude, if_pos rfl]
    refine congrArg Double.mk (UInt64.toNat_inj.1 ?_)
    rw [UInt64.toNat_sub_of_le _ _ hone, hbits, UInt64.toNat_one, UInt64.toNat_ofNat']
    omega
  | false =>
    rw [hneg, if_neg Bool.false_ne_true] at hbits
    rw [if_neg Bool.false_ne_true, if_neg fun h => Bool.false_ne_true h.1, ofMagnitude,
      if_neg Bool.false_ne_true]
    refine congrArg Double.mk (UInt64.toNat_inj.1 ?_)
    rw [UInt64.toNat_add, hbits, UInt64.toNat_one, UInt64.toNat_ofNat']

/-- Above each number but infinity comes the double of the next rank. -/
theorem rank_nextAbove (hx : x.IsNumber) (hne : x ≠ infinity) :
    x.nextAbove.IsNumber ∧ x.nextAbove.rank = x.rank + 1 := by
  have hle : x.magnitude ≤ infinityMagnitude := Nat.not_lt.1 (of_decide_eq_false hx)
  rw [nextAbove_eq hx hne]
  split
  · rename_i h
    obtain ⟨hneg, hzero⟩ := h
    obtain ⟨hnumber, hrank⟩ := rank_ofMagnitude true (m := x.magnitude - 1) (by omega)
    refine ⟨hnumber, ?_⟩
    rw [hrank, if_pos rfl, rank, if_pos hneg]
    omega
  · rename_i h
    have hlt : x.magnitude < infinityMagnitude := by
      rcases hx.eq_infinity_or with rfl | rfl | hfin
      · exact absurd (by decide) h
      · exact absurd rfl hne
      · exact magnitude_lt hfin
    obtain ⟨hnumber, hrank⟩ := rank_ofMagnitude false (m := x.magnitude + 1) hlt
    refine ⟨hnumber, ?_⟩
    rw [hrank, if_neg Bool.false_ne_true, rank]
    split
    · rename_i hneg
      have hzero : x.magnitude = 0 := by_contra fun hzero => h ⟨hneg, hzero⟩
      rw [hzero]
      rfl
    · rfl

/-! ### Comparisons with the neighbours -/

theorem infinity_le_iff : infinity ≤ y ↔ y = infinity := by
  constructor
  · intro h
    rcases (isNumber_right h).eq_infinity_or with rfl | rfl | hfin
    · exact absurd h (by decide)
    · rfl
    · exact absurd h (not_infinity_le hfin)
  · rintro rfl
    decide

/-- What is above a double is not below the one next to it; infinity is next to itself. -/
theorem nextAbove_le_iff : x.nextAbove ≤ y ↔ x < y ∨ x = infinity ∧ y = infinity := by
  by_cases hinf : x = infinity
  · subst hinf
    have hlt : ¬ infinity < y := fun h => Double.not_le_of_lt h (le_infinity (lt_iff_and.1 h).1.2)
    rw [show nextAbove infinity = infinity by decide, infinity_le_iff]
    simp [hlt]
  rw [or_iff_left fun h => hinf h.1]
  by_cases hx : x.IsNumber
  · obtain ⟨hnumber, hrank⟩ := rank_nextAbove hx hinf
    rw [le_iff_and, lt_iff_and, hrank]
    simp only [hx, hnumber, true_and]
    exact and_congr_right fun _ => Int.add_one_le_iff
  · rw [le_iff_and, lt_iff_and]
    have hnan : x.isNaN = true := by simpa [IsNumber] using hx
    have hstay : x.nextAbove = x := by rw [nextAbove, hnan, Bool.true_or, if_pos rfl]
    simp only [hstay, hx, false_and]

/-- What is below a double is not above the one next to it; negative infinity is next to itself. -/
theorem le_nextBelow_iff : x ≤ y.nextBelow ↔ x < y ∨ y = negInfinity ∧ x = negInfinity := by
  rw [nextBelow, le_neg_iff, nextAbove_le_iff, neg_lt_neg_iff, neg_eq_infinity_iff,
    neg_eq_infinity_iff]

end Muster.Double
