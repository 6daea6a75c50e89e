import Muster.Proofs.Double.Rounding
import Muster.Reduction

/-!
Amounts: doubles that are not negative, infinity among them. An amount is told by its units, where
infinity has as many as the first number past the greatest double, and amounts are compared by their
units. Whole numbers of at most 53 bits are exact.

Main statements: `IsAmount.le_iff`, `IsAmount.ext`, `amount_ofNat`, `isLargest_reduce`.
-/

namespace Muster.Double

/-- A number that is not negative, or infinity. -/
def IsAmount (x : Double) : Prop := x.bits.toNat ≤ infinityMagnitude

/-- The units of an amount. -/
def amount (x : Double) : Nat := unitsOfMagnitude x.magnitude

/-- The units of the amount nearest to `num / den` units. -/
def nearest (num den : Nat) : Nat := unitsOfMagnitude (magnitudeOfRatio num den)

theorem unitsPerOne_eq {n : Nat} (hn : n = 1074) : unitsPerOne = 2 ^ n := by
  rw [unitsPerOne, ← hn, Nat.pow_eq]

theorem unitsPerOne_pos : 0 < unitsPerOne := by
  obtain ⟨n, hn⟩ : ∃ n, n = 1074 := ⟨1074, rfl⟩
  rw [unitsPerOne_eq hn]
  exact Nat.two_pow_pos n

theorem infinityMagnitude_lt_signBit : infinityMagnitude < signBit := by decide

section Amount

variable {x y : Double}

theorem IsAmount.isNegative (hx : IsAmount x) : x.isNegative = false := by
  have := infinityMagnitude_lt_signBit
  rw [Double.isNegative, decide_eq_false_iff_not]
  exact Nat.not_le_of_lt (lt_of_le_of_lt hx this)

theorem IsAmount.magnitude_eq (hx : IsAmount x) : x.magnitude = x.bits.toNat :=
  Nat.mod_eq_of_lt (lt_of_le_of_lt hx infinityMagnitude_lt_signBit)

theorem IsAmount.magnitude_le (hx : IsAmount x) : x.magnitude ≤ infinityMagnitude := by
  rw [hx.magnitude_eq]
  exact hx

theorem IsAmount.isNaN (hx : IsAmount x) : x.isNaN = false :=
  decide_eq_false (Nat.not_lt_of_le hx.magnitude_le)

theorem IsAmount.rank_eq (hx : IsAmount x) : x.rank = x.magnitude := by
  rw [rank, hx.isNegative]
  exact if_neg Bool.false_ne_true

theorem IsAmount.units_eq (hx : IsAmount x) : x.units = x.amount := by
  rw [units, hx.isNegative]
  exact if_neg Bool.false_ne_true

theorem amount_le_iff (hx : IsAmount x) (hy : IsAmount y) :
    x.amount ≤ y.amount ↔ x.magnitude ≤ y.magnitude :=
  unitsOfMagnitude_le_iff hx.magnitude_le hy.magnitude_le

theorem IsAmount.le_iff (hx : IsAmount x) (hy : IsAmount y) : x ≤ y ↔ x.amount ≤ y.amount := by
  rw [amount_le_iff hx hy]
  show x.le y = true ↔ _
  rw [le, hx.isNaN, hy.isNaN, hx.rank_eq, hy.rank_eq]
  simp

theorem IsAmount.lt_iff (hx : IsAmount x) (hy : IsAmount y) : x < y ↔ x.amount < y.amount := by
  rw [← Nat.not_le, amount_le_iff hy hx]
  show x.lt y = true ↔ _
  rw [lt, hx.isNaN, hy.isNaN, hx.rank_eq, hy.rank_eq]
  simp

/-- The units decide an amount. -/
theorem IsAmount.ext (hx : IsAmount x) (hy : IsAmount y) (h : x.amount = y.amount) : x = y := by
  have hm : x.magnitude = y.magnitude :=
    Nat.le_antisymm ((amount_le_iff hx hy).1 h.le) ((amount_le_iff hy hx).1 h.ge)
  rw [hx.magnitude_eq, hy.magnitude_eq] at hm
  cases x
  cases y
  exact congrArg Double.mk (UInt64.toNat_inj.1 hm)

end Amount

/-! ### Rounded amounts -/

section Nearest

variable {num den num' den' : Nat}

theorem bits_ofMagnitude {m : Nat} (hm : m ≤ infinityMagnitude) :
    (ofMagnitude false m).bits.toNat = m := by
  have : infinityMagnitude < 2 ^ 64 := by decide
  exact (UInt64.toNat_ofNat' (n := m)).trans (Nat.mod_eq_of_lt (lt_of_le_of_lt hm this))

theorem isAmount_ofMagnitude {m : Nat} (hm : m ≤ infinityMagnitude) :
    IsAmount (ofMagnitude false m) := by
  rw [IsAmount, bits_ofMagnitude hm]
  exact hm

theorem magnitude_ofMagnitude {m : Nat} (hm : m ≤ infinityMagnitude) :
    (ofMagnitude false m).magnitude = m :=
  (isAmount_ofMagnitude hm).magnitude_eq.trans (bits_ofMagnitude hm)

theorem isAmount_ofRatio (num den : Nat) : IsAmount (ofRatio false num den) :=
  isAmount_ofMagnitude (magnitudeOfRatio_le num den)

theorem amount_ofRatio (num den : Nat) : (ofRatio false num den).amount = nearest num den :=
  congrArg unitsOfMagnitude (magnitude_ofMagnitude (magnitudeOfRatio_le num den))

theorem nearest_mono (hd : 0 < den) (hd' : 0 < den') (h : num * den' ≤ num' * den) :
    nearest num den ≤ nearest num' den' :=
  (unitsOfMagnitude_le_iff (magnitudeOfRatio_le ..) (magnitudeOfRatio_le ..)).2
    (magnitudeOfRatio_mono hd hd' h)

theorem nearest_congr (hd : 0 < den) (hd' : 0 < den') (h : num * den' = num' * den) :
    nearest num den = nearest num' den' :=
  congrArg unitsOfMagnitude (magnitudeOfRatio_congr hd hd' h)

theorem nearest_one_mono {a b : Nat} (h : a ≤ b) : nearest a 1 ≤ nearest b 1 :=
  nearest_mono Nat.one_pos Nat.one_pos (Nat.mul_le_mul_right 1 h)

theorem IsAmount.nearest_eq {x : Double} (hx : IsAmount x) : nearest x.amount 1 = x.amount :=
  congrArg unitsOfMagnitude (magnitudeOfRatio_units hx.magnitude_le)

theorem nearest_le_infinity (num den : Nat) :
    nearest num den ≤ unitsOfMagnitude infinityMagnitude :=
  (unitsOfMagnitude_le_iff (magnitudeOfRatio_le ..) (Nat.le_refl _)).2 (magnitudeOfRatio_le ..)

/-- What is not below infinity is rounded to it. -/
theorem nearest_eq_infinity (h : unitsOfMagnitude infinityMagnitude ≤ num) :
    nearest num 1 = unitsOfMagnitude infinityMagnitude := by
  refine Nat.le_antisymm (nearest_le_infinity num 1) ?_
  refine le_of_eq_of_le ?_ (nearest_one_mono h)
  exact (congrArg unitsOfMagnitude (magnitudeOfRatio_units (Nat.le_refl _))).symm

theorem nearest_zero : nearest 0 1 = 0 := by
  rw [nearest, magnitudeOfRatio_zero Nat.one_pos]
  exact if_pos fractionSize_pos

theorem nearest_pos (hd : 0 < den) (h : den ≤ num) : 0 < nearest num den := by
  have hone : unitsOfMagnitude 1 = 1 := by decide
  have hle : 1 ≤ magnitudeOfRatio num den :=
    le_magnitudeOfRatio hd (by decide) (by rwa [hone, Nat.one_mul])
  have := (unitsOfMagnitude_le_iff (by decide) (magnitudeOfRatio_le ..)).2 hle
  rw [hone] at this
  exact this

theorem IsAmount.amount_of_isInfinite {x : Double} (h : x.isInfinite = true) :
    x.amount = unitsOfMagnitude infinityMagnitude :=
  congrArg unitsOfMagnitude (of_decide_eq_true h)

end Nearest

/-! ### Numbers as amounts -/

theorem isAmount_ofNat (n : Nat) : IsAmount (ofNat n) := isAmount_ofRatio ..

theorem amount_ofNat_eq_nearest (n : Nat) : (ofNat n).amount = nearest (n * unitsPerOne) 1 :=
  amount_ofRatio ..

theorem isAmount_zero : IsAmount 0 := isAmount_ofNat 0

theorem amount_ofNat_zero : (ofNat 0).amount = 0 := by
  rw [amount_ofNat_eq_nearest, Nat.zero_mul, nearest_zero]

theorem amount_zero : amount 0 = 0 := amount_ofNat_zero

theorem amount_ofNat_mono {m n : Nat} (h : m ≤ n) : (ofNat m).amount ≤ (ofNat n).amount := by
  rw [amount_ofNat_eq_nearest, amount_ofNat_eq_nearest]
  exact nearest_one_mono (Nat.mul_le_mul_right _ h)

/-- A number of at most 53 bits has a magnitude of its own. -/
theorem exists_isMantissa_ofNat {n : Nat} (hn : n < 2 ^ 53) : ∃ s t, IsMantissa s t ∧
    t * 2 ^ s = n * unitsPerOne ∧ s * fractionSize + t < infinityMagnitude := by
  by_cases hzero : n = 0
  · exact ⟨0, 0, ⟨by decide, fun h => absurd rfl h⟩, by rw [hzero, Nat.zero_mul, Nat.zero_mul],
      by decide⟩
  · have hlog : n.log2 < 53 := (Nat.log2_lt hzero).2 hn
    obtain ⟨i, hi⟩ : ∃ i, n.log2 + i = 52 := ⟨52 - n.log2, by omega⟩
    have hle : 2 ^ n.log2 ≤ n := Nat.log2_self_le hzero
    have hlt : n < 2 ^ (n.log2 + 1) := Nat.lt_log2_self
    have hpow : 2 ^ n.log2 * 2 ^ i = fractionSize := by rw [← Nat.pow_add, hi, fractionSize_eq]
    have hpos := Nat.two_pow_pos i
    have hleast : fractionSize ≤ n * 2 ^ i := by
      rw [← hpow]
      exact Nat.mul_le_mul_right _ hle
    have hmost : n * 2 ^ i < 2 * fractionSize := by
      rw [← hpow]
      calc n * 2 ^ i < 2 ^ (n.log2 + 1) * 2 ^ i := Nat.mul_lt_mul_of_pos_right hlt hpos
        _ = 2 * (2 ^ n.log2 * 2 ^ i) := by ring
    refine ⟨1074 - i, n * 2 ^ i, ⟨hmost, fun _ => hleast⟩, ?_, ?_⟩
    · rw [Nat.mul_assoc, ← Nat.pow_add, unitsPerOne_eq (n := i + (1074 - i)) (by omega)]
    · have hs : (1074 - i) * fractionSize ≤ 1074 * fractionSize :=
        Nat.mul_le_mul_right _ (Nat.sub_le _ _)
      rw [infinityMagnitude]
      omega

/-- Numbers of at most 53 bits are exact. -/
theorem amount_ofNat {n : Nat} (hn : n < 2 ^ 53) : (ofNat n).amount = n * unitsPerOne := by
  obtain ⟨s, t, ht, hunits, hlt⟩ := exists_isMantissa_ofNat hn
  rw [amount_ofNat_eq_nearest, ← hunits, ← unitsOfMagnitude_eq ht, nearest,
    magnitudeOfRatio_units hlt.le]

theorem magnitude_ofNat_lt {n : Nat} (hn : n < 2 ^ 53) :
    (ofNat n).magnitude < infinityMagnitude := by
  obtain ⟨s, t, ht, hunits, hlt⟩ := exists_isMantissa_ofNat hn
  have hm : (ofNat n).magnitude = magnitudeOfRatio (n * unitsPerOne) 1 :=
    magnitude_ofMagnitude (magnitudeOfRatio_le ..)
  rw [hm, ← hunits, ← unitsOfMagnitude_eq ht, magnitudeOfRatio_units hlt.le]
  exact hlt

theorem amount_ofNat_pos {n : Nat} (hn : 0 < n) : 0 < (ofNat n).amount := by
  refine lt_of_lt_of_le ?_ (amount_ofNat_mono (Nat.succ_le_of_lt hn))
  rw [amount_ofNat (by decide), Nat.one_mul]
  exact unitsPerOne_pos

theorem amount_ofNat_eq_zero_iff {n : Nat} : (ofNat n).amount = 0 ↔ n = 0 := by
  constructor
  · intro h
    by_contra hn
    exact (amount_ofNat_pos (Nat.pos_of_ne_zero hn)).ne' h
  · rintro rfl
    exact amount_ofNat_zero

/-! ### Comparing amounts -/

section Compare

variable {x y : Double}

theorem IsAmount.isInfinite_or (hx : IsAmount x) :
    x.isInfinite = true ∨ x.isInfinite = false ∧ x.magnitude < infinityMagnitude := by
  have hle := hx.magnitude_le
  rw [isInfinite]
  by_cases h : x.magnitude = infinityMagnitude
  · exact .inl (decide_eq_true h)
  · exact .inr ⟨decide_eq_false h, by omega⟩

theorem isZero_eq_false (h : 0 < x.amount) : x.isZero = false := by
  refine decide_eq_false fun hzero => h.ne' ?_
  rw [amount, hzero]
  exact if_pos fractionSize_pos

theorem isFinite_of_le (hx : IsAmount x) (hy : IsAmount y) (h : x.amount ≤ y.amount)
    (hfin : y.isFinite = true) : x.isFinite = true := by
  rw [amount_le_iff hx hy] at h
  exact decide_eq_true (lt_of_le_of_lt h (of_decide_eq_true hfin))

theorem IsAmount.same_zero_iff (hx : IsAmount x) : x.same 0 = true ↔ x.amount = 0 := by
  have hrank : x.rank = rank 0 ↔ x.magnitude = magnitude 0 := by
    rw [hx.rank_eq, isAmount_zero.rank_eq]
    exact Int.ofNat_inj
  rw [same, hx.isNaN, isAmount_zero.isNaN, Bool.not_false, Bool.true_and, Bool.true_and,
    decide_eq_true_iff, hrank]
  constructor
  · intro h
    rw [amount, h]
    exact amount_zero
  · intro h
    rw [hx.ext isAmount_zero (h.trans amount_zero.symm)]

/-- The larger of two amounts is one of them. -/
theorem IsAmount.max_cases (hx : IsAmount x) (hy : IsAmount y) :
    (x.max y = y ∧ x.amount ≤ y.amount) ∨ (x.max y = x ∧ y.amount ≤ x.amount) := by
  rw [Double.max, hx.isNaN, hy.isNaN, if_neg Bool.false_ne_true, if_neg Bool.false_ne_true]
  split
  · rename_i hle
    exact .inl ⟨rfl, (hx.le_iff hy).1 hle⟩
  · rename_i hlt
    rw [hx.le_iff hy] at hlt
    exact .inr ⟨rfl, by omega⟩

/-- What the largest of some amounts satisfies. -/
structure IsLargest (xs : List Double) (x : Double) : Prop where
  isAmount : IsAmount x
  isFinite : x.isFinite = true
  le : ∀ y ∈ xs, y.amount ≤ x.amount
  mem : x.amount = 0 ∨ x ∈ xs

theorem isLargest_foldl_max : ∀ {xs : List Double} {x : Double}, IsAmount x → x.isFinite = true →
    (∀ y ∈ xs, IsAmount y ∧ y.isFinite = true) → IsLargest (x :: xs) (xs.foldl Double.max x)
  | [], x, hx, hfin, _ => ⟨hx, hfin, by simp, by simp⟩
  | y :: xs, x, hx, hfin, hxs => by
    obtain ⟨hy, hfin'⟩ := hxs y List.mem_cons_self
    have hrest := fun z hz => hxs z (List.mem_cons_of_mem y hz)
    rw [List.foldl_cons]
    rcases hx.max_cases hy with ⟨heq, hle⟩ | ⟨heq, hle⟩
    · rw [heq]
      have h := isLargest_foldl_max hy hfin' hrest
      refine ⟨h.isAmount, h.isFinite, ?_, h.mem.imp_right (List.mem_cons_of_mem x)⟩
      rw [List.forall_mem_cons]
      exact ⟨hle.trans (h.le y List.mem_cons_self), h.le⟩
    · rw [heq]
      have h := isLargest_foldl_max hx hfin hrest
      refine ⟨h.isAmount, h.isFinite, ?_, h.mem.imp_right fun hmem => ?_⟩
      · rw [List.forall_mem_cons, List.forall_mem_cons]
        have hx' := h.le x List.mem_cons_self
        exact ⟨hx', hle.trans hx', fun z hz => h.le z (List.mem_cons_of_mem _ hz)⟩
      · rw [List.mem_cons, List.mem_cons]
        exact (List.mem_cons.1 hmem).imp_right .inr

theorem isLargest_reduce {xs : List Double} (hxs : ∀ y ∈ xs, IsAmount y ∧ y.isFinite = true) :
    IsLargest xs ((reduce? Double.max xs).getD 0) := by
  have hzero : isFinite 0 = true := by decide +kernel
  cases xs with
  | nil => exact ⟨isAmount_zero, hzero, by simp, .inl amount_zero⟩
  | cons x xs =>
    obtain ⟨hx, hfin⟩ := hxs x List.mem_cons_self
    exact isLargest_foldl_max hx hfin fun y hy => hxs y (List.mem_cons_of_mem x hy)

/-- The largest of some amounts is not below nothing. -/
theorem IsLargest.max_zero {xs : List Double} (h : IsLargest xs x) : IsLargest xs (x.max 0) := by
  rcases h.isAmount.max_cases isAmount_zero with ⟨heq, hle⟩ | ⟨heq, -⟩
  · rw [heq, ← h.isAmount.ext isAmount_zero (by rw [amount_zero] at hle ⊢; omega)]
    exact h
  · rw [heq]
    exact h

end Compare

end Muster.Double
