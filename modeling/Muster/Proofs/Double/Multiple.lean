import Muster.Proofs.Double.Whole

/-!
Multiples of whole values against limits. A product of whole numbers is the exact one, rounded, and
rounding does not carry a whole number past a limit of at most 53 bits before the point. So a
multiple is on the same side of such a limit as its double, and the quotient of the limit and the
value, rounded up, is the least number of times that reaches it.

Main statements: `IsNumber.le_iff_units`, `units_mul`, `le_mul_iff`, `mul_le_iff`,
`exists_ceil_div_eq`.
-/

namespace Muster.Double

variable {x y z : Double} {a b m : Int}

/-! ### Numbers by their units -/

/-- A pattern is its magnitude, above it the sign bit if that is set. -/
theorem toNat_bits (x : Double) :
    x.bits.toNat = if x.isNegative then signBit + x.magnitude else x.magnitude := by
  have hlimit : signBit + signBit = 2 ^ 64 := by decide
  have hlt := x.bits.toNat_lt
  simp only [isNegative, magnitude, decide_eq_true_iff]
  split
  · rename_i hle
    rw [Nat.mod_eq_sub_mod hle, Nat.mod_eq_of_lt (by omega)]
    omega
  · rename_i hlt
    exact (Nat.mod_eq_of_lt (Nat.not_le.1 hlt)).symm

theorem ofMagnitude_magnitude (x : Double) : ofMagnitude x.isNegative x.magnitude = x := by
  rw [ofMagnitude, ← toNat_bits, UInt64.ofNat_toNat]

/-- Numbers are ordered as their units are. -/
theorem IsNumber.le_iff_units (hx : x.IsNumber) (hy : y.IsNumber) : x ≤ y ↔ x.units ≤ y.units := by
  have hxm : x.magnitude ≤ infinityMagnitude := Nat.not_lt.1 (of_decide_eq_false hx)
  have hym : y.magnitude ≤ infinityMagnitude := Nat.not_lt.1 (of_decide_eq_false hy)
  have hle := unitsOfMagnitude_le_iff hxm hym
  have hge := unitsOfMagnitude_le_iff hym hxm
  have hxzero := unitsOfMagnitude_eq_zero_iff hxm
  have hyzero := unitsOfMagnitude_eq_zero_iff hym
  rw [hx.le_iff hy, units, units, rank, rank]
  cases x.isNegative <;> cases y.isNegative <;>
    simp only [Bool.false_eq_true, if_false, if_true] <;> omega

/-- A number is finite, or it is one of the infinities. -/
theorem IsNumber.eq_infinity_or (hx : x.IsNumber) :
    x = negInfinity ∨ x = infinity ∨ x.isFinite = true := by
  have hle : x.magnitude ≤ infinityMagnitude := Nat.not_lt.1 (of_decide_eq_false hx)
  by_cases hfin : x.magnitude < infinityMagnitude
  · exact .inr (.inr (decide_eq_true hfin))
  have heq : x = ofMagnitude x.isNegative infinityMagnitude := by
    rw [← Nat.le_antisymm hle (Nat.not_lt.1 hfin), ofMagnitude_magnitude]
  cases hneg : x.isNegative with
  | true => exact .inl (by rwa [hneg] at heq)
  | false => exact .inr (.inl (by rwa [hneg] at heq))

theorem units_ofInt (m : Int) : (ofInt m).units =
    if m < 0 then -((ofNat m.natAbs).amount : Int) else (ofNat m.natAbs).amount := by
  have hle := magnitudeOfRatio_le (m.natAbs * unitsPerOne) 1
  have hamount : (ofNat m.natAbs).amount =
      unitsOfMagnitude (magnitudeOfRatio (m.natAbs * unitsPerOne) 1) := amount_ofNat_eq_nearest _
  rw [ofInt_eq, ofRatio, units, isNegative_ofMagnitude _ hle, magnitude_ofMagnitude_signed _ hle,
    hamount]
  simp only [decide_eq_true_iff]

theorem isNumber_ofInt (m : Int) : (ofInt m).IsNumber := by
  have hle := magnitudeOfRatio_le (m.natAbs * unitsPerOne) 1
  rw [ofInt_eq, ofRatio, IsNumber, isNaN, magnitude_ofMagnitude_signed _ hle]
  exact decide_eq_false (Nat.not_lt.2 hle)

theorem mul_unitsPerOne_eq (m : Int) : m * unitsPerOne =
    if m < 0 then -((m.natAbs * unitsPerOne : Nat) : Int) else (m.natAbs * unitsPerOne : Nat) := by
  split
  · rw [Int.natCast_mul, ← Int.neg_mul]
    congr 1
    omega
  · rw [Int.natCast_mul]
    congr 1
    omega

/-! ### Limits -/

/-- Whether a double, if it is finite, has at most 53 bits before the point. -/
def IsSmall (x : Double) : Prop :=
  x.isFinite = true → x.units.natAbs ≤ (2 ^ 53 - 1) * unitsPerOne

instance (x : Double) : Decidable x.IsSmall :=
  inferInstanceAs (Decidable (x.isFinite = true → _ ≤ _))

section Limit

variable {n limit : Nat} (hlimit : limit ≤ (2 ^ 53 - 1) * unitsPerOne)
include hlimit

theorem limit_lt_amount (hn : 2 ^ 53 ≤ n) : limit < (ofNat n).amount ∧ limit < n * unitsPerOne := by
  have hlt : limit < 2 ^ 53 * unitsPerOne :=
    lt_of_le_of_lt hlimit (Nat.mul_lt_mul_of_pos_right (by decide) unitsPerOne_pos)
  exact ⟨lt_of_lt_of_le hlt (amount_ofNat_limit.ge.trans (amount_ofNat_mono hn)),
    lt_of_lt_of_le hlt (Nat.mul_le_mul_right _ hn)⟩

theorem le_amount_ofNat_iff : limit ≤ (ofNat n).amount ↔ limit ≤ n * unitsPerOne := by
  rcases Nat.lt_or_ge n (2 ^ 53) with hn | hn
  · rw [amount_ofNat hn]
  · obtain ⟨hamount, hexact⟩ := limit_lt_amount hlimit hn
    exact iff_of_true hamount.le hexact.le

theorem amount_ofNat_le_iff : (ofNat n).amount ≤ limit ↔ n * unitsPerOne ≤ limit := by
  rcases Nat.lt_or_ge n (2 ^ 53) with hn | hn
  · rw [amount_ofNat hn]
  · obtain ⟨hamount, hexact⟩ := limit_lt_amount hlimit hn
    exact iff_of_false (Nat.not_le_of_lt hamount) (Nat.not_le_of_lt hexact)

end Limit

section Small

variable (hfin : x.isFinite = true) (hsmall : x.IsSmall)
include hfin hsmall

/-- A double is at most a whole number, rounded, just if it is at most the number. -/
theorem le_ofInt_iff : x ≤ ofInt m ↔ x.units ≤ m * unitsPerOne := by
  have hle := le_amount_ofNat_iff (n := m.natAbs) (hsmall hfin)
  have hge := amount_ofNat_le_iff (n := m.natAbs) (hsmall hfin)
  rw [(isNumber_of_isFinite hfin).le_iff_units (isNumber_ofInt m), units_ofInt, mul_unitsPerOne_eq]
  split <;> omega

/-- A whole number, rounded, is at most a double just if the number is. -/
theorem ofInt_le_iff : ofInt m ≤ x ↔ m * unitsPerOne ≤ x.units := by
  have hle := le_amount_ofNat_iff (n := m.natAbs) (hsmall hfin)
  have hge := amount_ofNat_le_iff (n := m.natAbs) (hsmall hfin)
  rw [(isNumber_ofInt m).le_iff_units (isNumber_of_isFinite hfin), units_ofInt, mul_unitsPerOne_eq]
  split <;> omega

end Small

/-! ### Products -/

section Product

variable (hx : x.IsWhole a) (hy : y.IsWhole b)
include hx hy

theorem isNumber_mul : (x * y).IsNumber := by
  obtain ⟨negative, hmul, -⟩ := hx.mul_eq_ofMagnitude hy
  have hle := magnitudeOfRatio_le ((a * b).natAbs * unitsPerOne) 1
  rw [hmul, IsNumber, isNaN, magnitude_ofMagnitude_signed _ hle]
  exact decide_eq_false (Nat.not_lt.2 hle)

/-- A product of whole numbers is the exact one, rounded. -/
theorem units_mul : (x * y).units = (ofInt (a * b)).units := by
  obtain ⟨negative, hmul, hsign⟩ := hx.mul_eq_ofMagnitude hy
  have hle := magnitudeOfRatio_le ((a * b).natAbs * unitsPerOne) 1
  rw [hmul, ofInt_eq, ofRatio, units, units, isNegative_ofMagnitude _ hle,
    isNegative_ofMagnitude _ hle, magnitude_ofMagnitude_signed _ hle,
    magnitude_ofMagnitude_signed _ hle]
  by_cases hzero : a * b = 0
  · have hnone : unitsOfMagnitude (magnitudeOfRatio ((a * b).natAbs * unitsPerOne) 1) = 0 := by
      rw [hzero, Int.natAbs_zero, Nat.zero_mul]
      exact nearest_zero
    rw [hnone, Int.natCast_zero, Int.neg_zero, ite_self, ite_self]
  · rw [hsign hzero]

theorem isFinite_mul (ha : a.natAbs < 2 ^ 53) (hb : b.natAbs < 2 ^ 53) :
    (x * y).isFinite = true := by
  obtain ⟨negative, hmul, -⟩ := hx.mul_eq_ofMagnitude hy
  have hle := magnitudeOfRatio_le ((a * b).natAbs * unitsPerOne) 1
  have hlt : (ofNat (a * b).natAbs).isFinite = true := by
    refine isFinite_of_le (isAmount_ofNat _) (isAmount_ofNat (2 ^ 106)) (amount_ofNat_mono ?_)
      (by decide +kernel)
    rw [Int.natAbs_mul]
    exact (Nat.mul_le_mul ha.le hb.le).trans (by decide)
  rw [isFinite, decide_eq_true_iff, ofNat, ofRatio, magnitude_ofMagnitude hle] at hlt
  rw [hmul, isFinite, magnitude_ofMagnitude_signed _ hle]
  exact decide_eq_true hlt

theorem le_mul_iff (hz : z.isFinite = true) (hsmall : z.IsSmall) :
    z ≤ x * y ↔ z.units ≤ a * b * unitsPerOne := by
  rw [(isNumber_of_isFinite hz).le_iff_units (isNumber_mul hx hy), units_mul hx hy,
    ← (isNumber_of_isFinite hz).le_iff_units (isNumber_ofInt _), le_ofInt_iff hz hsmall]

theorem mul_le_iff (hz : z.isFinite = true) (hsmall : z.IsSmall) :
    x * y ≤ z ↔ a * b * unitsPerOne ≤ z.units := by
  rw [(isNumber_mul hx hy).le_iff_units (isNumber_of_isFinite hz), units_mul hx hy,
    ← (isNumber_ofInt _).le_iff_units (isNumber_of_isFinite hz), ofInt_le_iff hz hsmall]

end Product

/-! ### Whole numbers within limits -/

/-- Whether a double is at most a whole number; negative infinity is below all of them. -/
def AtMost (x : Double) (m : Int) : Prop :=
  x = negInfinity ∨ x.isFinite = true ∧ x.units ≤ m * unitsPerOne

/-- Whether a double is at least a whole number; infinity is above all of them. -/
def AtLeast (x : Double) (m : Int) : Prop :=
  x = infinity ∨ x.isFinite = true ∧ m * unitsPerOne ≤ x.units

instance (x : Double) (m : Int) : Decidable (x.AtMost m) :=
  inferInstanceAs (Decidable (_ ∨ _))

instance (x : Double) (m : Int) : Decidable (x.AtLeast m) :=
  inferInstanceAs (Decidable (_ ∨ _))

theorem atMost_iff (hx : x.isFinite = true) : x.AtMost m ↔ x.units ≤ m * unitsPerOne := by
  have hne : x ≠ negInfinity := by
    rintro rfl
    exact absurd hx (by decide)
  rw [AtMost, or_iff_right hne, and_iff_right hx]

theorem atLeast_iff (hx : x.isFinite = true) : x.AtLeast m ↔ m * unitsPerOne ≤ x.units := by
  have hne : x ≠ infinity := by
    rintro rfl
    exact absurd hx (by decide)
  rw [AtLeast, or_iff_right hne, and_iff_right hx]

theorem AtMost.mono (h : x.AtMost a) (hle : a ≤ b) : x.AtMost b := by
  refine h.imp_right (And.imp_right fun hunits => hunits.trans ?_)
  exact Int.mul_le_mul_of_nonneg_right hle (Int.natCast_nonneg _)

theorem AtLeast.mono (h : x.AtLeast b) (hle : a ≤ b) : x.AtLeast a := by
  refine h.imp_right (And.imp_right fun hunits => le_trans ?_ hunits)
  exact Int.mul_le_mul_of_nonneg_right hle (Int.natCast_nonneg _)

theorem natAbs_rank_le (hx : x.IsNumber) : x.rank.natAbs ≤ infinityMagnitude := by
  have hle : x.magnitude ≤ infinityMagnitude := Nat.not_lt.1 (of_decide_eq_false hx)
  rw [rank]
  split <;> omega

theorem natAbs_rank_lt (hx : x.isFinite = true) : x.rank.natAbs < infinityMagnitude := by
  have hlt := magnitude_lt hx
  rw [rank]
  split <;> omega

theorem negInfinity_le (hx : x.IsNumber) : negInfinity ≤ x := by
  have hrank : negInfinity.rank = -(infinityMagnitude : Int) := by decide
  have hle := natAbs_rank_le hx
  refine le_iff_and.2 ⟨⟨show negInfinity.isNaN = false by decide, hx⟩, ?_⟩
  omega

theorem le_infinity (hx : x.IsNumber) : x ≤ infinity := by
  have hrank : infinity.rank = infinityMagnitude := by decide
  have hle := natAbs_rank_le hx
  refine le_iff_and.2 ⟨⟨hx, show infinity.isNaN = false by decide⟩, ?_⟩
  omega

theorem not_infinity_le (hx : x.isFinite = true) : ¬ infinity ≤ x := by
  have hrank : infinity.rank = infinityMagnitude := by decide
  have hlt := natAbs_rank_lt hx
  intro hle
  have := (le_iff_and.1 hle).2
  omega

theorem not_le_negInfinity (hx : x.isFinite = true) : ¬ x ≤ negInfinity := by
  have hrank : negInfinity.rank = -(infinityMagnitude : Int) := by decide
  have hlt := natAbs_rank_lt hx
  intro hle
  have := (le_iff_and.1 hle).2
  omega

theorem not_atMost_infinity (m : Int) : ¬ infinity.AtMost m := by
  rintro (heq | ⟨hfin, -⟩)
  · exact absurd heq (by decide)
  · exact absurd hfin (by decide)

theorem not_atLeast_negInfinity (m : Int) : ¬ negInfinity.AtLeast m := by
  rintro (heq | ⟨hfin, -⟩)
  · exact absurd heq (by decide)
  · exact absurd hfin (by decide)

section Range

variable (hx : x.IsWhole a) (hy : y.IsWhole b) (ha : a.natAbs < 2 ^ 53) (hb : b.natAbs < 2 ^ 53)
include hx hy ha hb

/-- A limit is at most the double of a product just if it is at most the product. -/
theorem le_mul_iff_atMost (hz : z.IsNumber) (hsmall : z.IsSmall) :
    z ≤ x * y ↔ z.AtMost (a * b) := by
  rcases hz.eq_infinity_or with rfl | rfl | hfin
  · exact iff_of_true (negInfinity_le (isNumber_mul hx hy)) (.inl rfl)
  · exact iff_of_false (not_infinity_le (isFinite_mul hx hy ha hb)) (not_atMost_infinity _)
  · rw [le_mul_iff hx hy hfin hsmall, atMost_iff hfin]

/-- A limit is at least the double of a product just if it is at least the product. -/
theorem mul_le_iff_atLeast (hz : z.IsNumber) (hsmall : z.IsSmall) :
    x * y ≤ z ↔ z.AtLeast (a * b) := by
  rcases hz.eq_infinity_or with rfl | rfl | hfin
  · exact iff_of_false (not_le_negInfinity (isFinite_mul hx hy ha hb)) (not_atLeast_negInfinity _)
  · exact iff_of_true (le_infinity (isNumber_mul hx hy)) (.inl rfl)
  · rw [mul_le_iff hx hy hfin hsmall, atLeast_iff hfin]

end Range

/-! ### How often a value reaches a limit -/

theorem ofNat_mono {k q : Nat} (h : k ≤ q) : ofNat k ≤ ofNat q :=
  ((isAmount_ofNat k).le_iff (isAmount_ofNat q)).2 (amount_ofNat_mono h)

theorem ofNat_le_ofNat_iff {k q : Nat} (hq : q + 1 < 2 ^ 53) : ofNat k ≤ ofNat q ↔ k ≤ q := by
  refine ⟨fun h => ?_, ofNat_mono⟩
  have hle := ((isAmount_ofNat k).le_iff (isAmount_ofNat q)).1 h
  rw [amount_ofNat (Nat.lt_of_succ_lt hq)] at hle
  by_contra hlt
  have hnext := amount_ofNat_mono (Nat.succ_le_of_lt (Nat.not_le.1 hlt))
  rw [amount_ofNat hq] at hnext
  exact Nat.not_succ_le_self q (Nat.le_of_mul_le_mul_right (hnext.trans hle) unitsPerOne_pos)

theorem max_ofNat {k q : Nat} (h : k ≤ q) : (ofNat k).max (ofNat q) = ofNat q := by
  rw [Double.max, (isAmount_ofNat k).isNaN, (isAmount_ofNat q).isNaN, if_neg Bool.false_ne_true,
    if_neg Bool.false_ne_true, if_pos (ofNat_mono h)]

/-- The multiples of infinity are infinity. -/
theorem ofNat_mul_infinity {k : Nat} (hk : 0 < k) : ofNat k * infinity = infinity := by
  have hnumber : (ofNat k).isNaN = false := (isAmount_ofNat k).isNaN
  have hsign : (ofNat k).isNegative = false := (isAmount_ofNat k).isNegative
  have hzero : (ofNat k).isZero = false := isZero_eq_false (amount_ofNat_pos hk)
  have hinfinity : infinity.isNaN = false ∧ infinity.isInfinite = true ∧
      infinity.isZero = false ∧ infinity.isNegative = false := by decide
  obtain ⟨hnumber', hinfinite, hzero', hsign'⟩ := hinfinity
  show (ofNat k).mul infinity = _
  rw [mul, hnumber, hnumber', hinfinite, hzero, hzero', hsign, hsign']
  simp [infinity]

theorem isNumber_of_mul (h : (x * y).IsNumber) : y.IsNumber := by
  by_contra hy
  rw [IsNumber, Bool.not_eq_false] at hy
  have hmul : x * y = nan := by
    show x.mul y = nan
    rw [mul, hy, Bool.or_true, if_pos rfl]
  rw [hmul, IsNumber] at h
  exact absurd h (by decide)

theorem isAmount_of_units_pos (hx : x.IsNumber) (h : 0 < x.units) : IsAmount x := by
  have hzero : unitsOfMagnitude 0 = 0 := if_pos fractionSize_pos
  refine isAmount_of_rank_pos hx ?_
  rw [units] at h
  rw [rank]
  split at h
  · omega
  · rename_i hneg
    rw [if_neg hneg, Int.natCast_pos]
    refine Nat.pos_of_ne_zero fun hmag => ?_
    rw [hmag, hzero] at h
    omega

theorem IsWhole.eq_ofNat {n : Nat} (hx : x.IsWhole n) (hn : 0 < n) (hn' : n < 2 ^ 53) :
    x = ofNat n := by
  have hpos : 0 < x.units := by
    rw [hx.units_eq]
    exact Int.mul_pos (Int.natCast_pos.2 hn) (Int.natCast_pos.2 unitsPerOne_pos)
  have hamount := isAmount_of_units_pos hx.isNumber hpos
  refine hamount.ext (isAmount_ofNat n) (Int.ofNat_inj.1 ?_)
  rw [amount_ofNat hn', ← hamount.units_eq, hx.units_eq, Int.natCast_mul]

theorem IsNumber.le_zero_iff (hx : x.IsNumber) : x ≤ 0 ↔ x.units ≤ 0 := by
  have hzero : units 0 = 0 := by rw [isAmount_zero.units_eq, amount_zero, Int.natCast_zero]
  rw [hx.le_iff_units isNumber_zero, hzero]

theorem IsWhole.le_zero_iff (hx : x.IsWhole a) : x ≤ 0 ↔ a ≤ 0 := by
  have hpos : (0 : Int) < unitsPerOne := Int.natCast_pos.2 unitsPerOne_pos
  rw [hx.isNumber.le_zero_iff, hx.units_eq, ← Int.not_lt, ← Int.not_lt,
    mul_pos_iff_of_pos_right hpos]

section Quotient

variable {n : Nat} (hz : IsAmount z) (hlimit : z.amount ≤ (2 ^ 53 - 1) * unitsPerOne) (hn : 0 < n)
  (hn' : n < 2 ^ 53)
include hz hlimit hn hn'

theorem isAmount_div_ofNat : IsAmount (z / ofNat n) ∧ (z / ofNat n).isFinite = true ∧
    (z / ofNat n).amount = nearest (z.amount * unitsPerOne) (n * unitsPerOne) ∧
    (z / ofNat n).amount ≤ z.amount := by
  have hfin : z.isFinite = true :=
    isFinite_of_amount_le hz (hlimit.trans (Nat.mul_le_mul_right _ (by decide)))
  have hinf : z.isInfinite = false := decide_eq_false (magnitude_lt hfin).ne
  obtain ⟨hquotient, hamount⟩ :=
    isAmount_div hz (isAmount_ofNat n) hinf (isInfinite_ofNat hn') (amount_ofNat_pos hn)
  have hle : (z / ofNat n).amount ≤ z.amount := by
    refine amount_div_le hz (isAmount_ofNat n) hinf (isInfinite_ofNat hn') ?_
    rw [amount_ofNat hn']
    exact Nat.le_mul_of_pos_left _ hn
  rw [amount_ofNat hn'] at hamount
  exact ⟨hquotient, isFinite_of_le hquotient hz hle hfin, hamount, hle⟩

/-- Also once it is rounded, the quotient of a limit and a number that is not above it is at most
`j` just if the limit is at most `j` times the number. -/
theorem amount_div_ofNat_le_iff (hle : n * unitsPerOne ≤ z.amount) (j : Nat) :
    (z / ofNat n).amount ≤ j * unitsPerOne ↔ z.amount ≤ n * j * unitsPerOne := by
  obtain ⟨-, -, hamount, hbelow⟩ := isAmount_div_ofNat hz hlimit hn hn'
  rcases Nat.lt_or_ge j (2 ^ 53) with hj | hj
  · constructor
    · intro hquotient
      have hlt : z.amount < 2 ^ 53 * unitsPerOne :=
        lt_of_le_of_lt hlimit (Nat.mul_lt_mul_of_pos_right (by decide) unitsPerOne_pos)
      refine le_mul_of_div_ofNat_le hz hlt hn hn' hj (Nat.pos_of_ne_zero ?_) hquotient
      rintro rfl
      have hpos := nearest_pos (Nat.mul_pos hn unitsPerOne_pos)
        (hle.trans (Nat.le_mul_of_pos_right _ unitsPerOne_pos))
      omega
    · intro hproduct
      rw [hamount, ← amount_ofNat hj, amount_ofNat_eq_nearest]
      refine nearest_mono (Nat.mul_pos hn unitsPerOne_pos) Nat.one_pos ?_
      calc z.amount * unitsPerOne * 1 = z.amount * unitsPerOne := Nat.mul_one _
        _ ≤ n * j * unitsPerOne * unitsPerOne := Nat.mul_le_mul_right _ hproduct
        _ = j * unitsPerOne * (n * unitsPerOne) := by ring
  · have hlarge : z.amount ≤ j * unitsPerOne :=
      hlimit.trans (Nat.mul_le_mul_right _ ((Nat.sub_le _ _).trans hj))
    refine iff_of_true (hbelow.trans hlarge) (hlarge.trans (Nat.mul_le_mul_right _ ?_))
    exact Nat.le_mul_of_pos_left j hn

end Quotient

/-- A limit above `k` times a positive number is reached with the quotient, rounded up, and with no
lower number of times. -/
theorem exists_ceil_div_eq {k : Nat} (hz : z.IsNumber) (hne : z ≠ infinity) (hsmall : z.IsSmall)
    (hx : x.IsWhole a) (ha : 0 < a) (ha' : a.natAbs < 2 ^ 53) (hk : 0 < k)
    (h : ¬ z.AtMost (k * a)) :
    ∃ q, (z / x).ceil = ofNat q ∧ k < q ∧ q < 2 ^ 53 ∧ ∀ j : Nat, q ≤ j ↔ z.AtMost (j * a) := by
  have hfin : z.isFinite = true := by
    rcases hz.eq_infinity_or with heq | heq | hfin
    · exact absurd (.inl heq) h
    · exact absurd heq hne
    · exact hfin
  obtain ⟨n, rfl⟩ := Int.eq_ofNat_of_zero_le ha.le
  have hn : 0 < n := by omega
  have hn' : n < 2 ^ 53 := by omega
  obtain rfl := hx.eq_ofNat hn hn'
  simp only [atMost_iff hfin] at h ⊢
  have hproduct : (0 : Int) ≤ k * n * unitsPerOne :=
    Int.mul_nonneg (Int.mul_nonneg (Int.natCast_nonneg k) ha.le) (Int.natCast_nonneg _)
  have hunits : 0 < z.units := lt_of_le_of_lt hproduct (Int.not_le.1 h)
  have hamount := isAmount_of_units_pos hz hunits
  have hiff : ∀ j : Nat,
      z.units ≤ (j : Int) * n * unitsPerOne ↔ z.amount ≤ n * j * unitsPerOne := by
    intro j
    rw [hamount.units_eq, Int.mul_comm (j : Int)]
    exact_mod_cast Iff.rfl
  have hlimit : z.amount ≤ (2 ^ 53 - 1) * unitsPerOne := by
    have hlimit := hsmall hfin
    rwa [hamount.units_eq, Int.natAbs_natCast] at hlimit
  have hle : n * unitsPerOne ≤ z.amount := by
    refine le_trans ?_ (Nat.le_of_not_le (mt (hiff k).2 h))
    exact Nat.mul_le_mul_right _ (Nat.le_mul_of_pos_right n hk)
  obtain ⟨hquotient, hfinite, -, -⟩ := isAmount_div_ofNat hamount hlimit hn hn'
  obtain ⟨q, hceil, hleast⟩ := ceil_eq_least hquotient hfinite
  have hreach : ∀ j : Nat, q ≤ j ↔ z.units ≤ (j : Int) * n * unitsPerOne := fun j => by
    rw [hleast, amount_div_ofNat_le_iff hamount hlimit hn hn' hle, hiff]
  refine ⟨q, hceil, Nat.lt_of_not_le (mt (hreach k).1 h), ?_, hreach⟩
  have hlast : q ≤ 2 ^ 53 - 1 := by
    rw [hreach, hiff]
    exact hlimit.trans (Nat.mul_le_mul_right _ (Nat.le_mul_of_pos_left _ hn))
  omega

end Muster.Double
