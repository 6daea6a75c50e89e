import Muster.Proofs.Double.Arithmetic
import Muster.Proofs.Double.Order

/-!
Whole numbers of either sign as doubles. A double and its sign bit are a magnitude and a sign, so
what is known of the magnitudes of natural numbers carries over. Sums and products of whole numbers
are exact as long as they have at most 53 bits, and doubles that are the same whole number have the
same rank, whatever the sign of a zero. What is positive once it is rounded up is a whole number
then, infinity among them.

Main statements: `IsWhole.add`, `IsWhole.mul`, `IsWhole.rank_eq`, `isWhole_foldl`,
`exists_max_ceil_eq_ofNat`, `toNatUpTo_ceil_mul`.
-/

namespace Muster.Double

/-- A double that is a given whole number. -/
structure IsWhole (x : Double) (n : Int) : Prop where
  isFinite : x.isFinite = true
  units_eq : x.units = n * unitsPerOne

instance (x : Double) (n : Int) : Decidable (x.IsWhole n) :=
  decidable_of_iff (x.isFinite = true ∧ x.units = n * unitsPerOne)
    ⟨fun ⟨hfin, hunits⟩ => ⟨hfin, hunits⟩, fun ⟨hfin, hunits⟩ => ⟨hfin, hunits⟩⟩

/-- The whole part of a double. -/
def whole (x : Double) : Int := x.units / unitsPerOne

variable {x y : Double} {a b n : Int}

/-! ### Signs and magnitudes -/

section Sign

variable {m : Nat} {negative : Bool}

theorem bits_ofMagnitude_signed (negative : Bool) (hm : m ≤ infinityMagnitude) :
    (ofMagnitude negative m).bits.toNat = if negative then signBit + m else m := by
  have hbound : infinityMagnitude < signBit := infinityMagnitude_lt_signBit
  have hlimit : signBit + signBit = 2 ^ 64 := by decide
  refine (UInt64.toNat_ofNat' (n := if negative then signBit + m else m)).trans
    (Nat.mod_eq_of_lt ?_)
  split <;> omega

theorem isNegative_ofMagnitude (negative : Bool) (hm : m ≤ infinityMagnitude) :
    (ofMagnitude negative m).isNegative = negative := by
  have hbound : infinityMagnitude < signBit := infinityMagnitude_lt_signBit
  rw [isNegative, bits_ofMagnitude_signed negative hm]
  cases negative with
  | false => exact decide_eq_false (Nat.not_le_of_lt (by simpa using hm.trans_lt hbound))
  | true => exact decide_eq_true (by simp)

theorem magnitude_ofMagnitude_signed (negative : Bool) (hm : m ≤ infinityMagnitude) :
    (ofMagnitude negative m).magnitude = m := by
  have hbound : infinityMagnitude < signBit := infinityMagnitude_lt_signBit
  rw [magnitude, bits_ofMagnitude_signed negative hm]
  cases negative with
  | false => exact Nat.mod_eq_of_lt (hm.trans_lt hbound)
  | true => exact (Nat.add_mod_left signBit m).trans (Nat.mod_eq_of_lt (hm.trans_lt hbound))

/-- The magnitude of a number of at most 53 bits, with its sign; zero may have either. -/
theorem isWhole_ofMagnitude (hn : n.natAbs < 2 ^ 53)
    (hsign : n ≠ 0 → negative = decide (n < 0)) :
    (ofMagnitude negative (magnitudeOfRatio (n.natAbs * unitsPerOne) 1)).IsWhole n := by
  have hle := magnitudeOfRatio_le (n.natAbs * unitsPerOne) 1
  have hmagnitude := magnitude_ofMagnitude_signed negative hle
  have hunits : unitsOfMagnitude (magnitudeOfRatio (n.natAbs * unitsPerOne) 1) =
      n.natAbs * unitsPerOne := (amount_ofNat_eq_nearest _).symm.trans (amount_ofNat hn)
  have hvalue : (if negative = true then -(n.natAbs : Int) else n.natAbs) = n := by
    by_cases hzero : n = 0
    · rw [hzero]
      exact ite_self _
    · simp only [hsign hzero, decide_eq_true_iff]
      split <;> omega
  constructor
  · rw [isFinite, hmagnitude, decide_eq_true_iff]
    have hlt := magnitude_ofNat_lt hn
    rwa [ofNat, ofRatio, magnitude_ofMagnitude hle] at hlt
  · rw [units, isNegative_ofMagnitude negative hle, hmagnitude, hunits, Int.natCast_mul,
      ← Int.neg_mul, ← ite_mul, hvalue]

theorem isWhole_ofNat {n : Nat} (hn : n < 2 ^ 53) : (ofNat n).IsWhole n :=
  isWhole_ofMagnitude (n := n) hn fun _ => (decide_eq_false (by omega)).symm

theorem unitsOfMagnitude_eq_zero_iff (hm : m ≤ infinityMagnitude) :
    unitsOfMagnitude m = 0 ↔ m = 0 := by
  have hle : unitsOfMagnitude m ≤ unitsOfMagnitude 0 ↔ m ≤ 0 :=
    unitsOfMagnitude_le_iff hm (Nat.zero_le _)
  rwa [show unitsOfMagnitude 0 = 0 from if_pos fractionSize_pos, Nat.le_zero, Nat.le_zero] at hle

theorem unitsOfMagnitude_inj {m' : Nat} (hm : m ≤ infinityMagnitude)
    (hm' : m' ≤ infinityMagnitude) (h : unitsOfMagnitude m = unitsOfMagnitude m') : m = m' :=
  Nat.le_antisymm ((unitsOfMagnitude_le_iff hm hm').1 h.le)
    ((unitsOfMagnitude_le_iff hm' hm).1 h.ge)

end Sign

theorem magnitude_lt (hx : x.isFinite = true) : x.magnitude < infinityMagnitude :=
  of_decide_eq_true hx

theorem isNumber_of_isFinite (hx : x.isFinite = true) : x.IsNumber :=
  decide_eq_false (Nat.not_lt_of_lt (magnitude_lt hx))

/-- Finite doubles of the same value have the same rank. -/
theorem rank_eq_of_units_eq (hx : x.isFinite = true) (hy : y.isFinite = true)
    (h : x.units = y.units) : x.rank = y.rank := by
  have hxm := (magnitude_lt hx).le
  have hym := (magnitude_lt hy).le
  have hsame : unitsOfMagnitude x.magnitude = unitsOfMagnitude y.magnitude →
      x.magnitude = y.magnitude := unitsOfMagnitude_inj hxm hym
  have hxzero := unitsOfMagnitude_eq_zero_iff hxm
  have hyzero := unitsOfMagnitude_eq_zero_iff hym
  rw [units, units] at h
  rw [rank, rank]
  cases hneg : x.isNegative <;> cases hneg' : y.isNegative <;>
    simp only [hneg, hneg', Bool.false_eq_true, if_false, if_true] at h ⊢ <;> omega

namespace IsWhole

theorem isNumber (hx : x.IsWhole n) : x.IsNumber := isNumber_of_isFinite hx.isFinite

theorem isInfinite (hx : x.IsWhole n) : x.isInfinite = false :=
  decide_eq_false (magnitude_lt hx.isFinite).ne

theorem rank_eq (hx : x.IsWhole n) (hy : y.IsWhole n) : x.rank = y.rank :=
  rank_eq_of_units_eq hx.isFinite hy.isFinite (hx.units_eq.trans hy.units_eq.symm)

/-- The sign bit is that of the number, except for zero. -/
theorem isNegative_eq (hx : x.IsWhole n) (hn : n ≠ 0) : x.isNegative = decide (n < 0) := by
  have hpos : (0 : Int) < unitsPerOne := Int.natCast_pos.2 unitsPerOne_pos
  have hunits := hx.units_eq
  rw [units] at hunits
  rw [Bool.eq_iff_iff, decide_eq_true_iff]
  rcases Int.lt_or_gt_of_ne hn with hneg | hneg
  · have hmul := Int.mul_neg_of_neg_of_pos hneg hpos
    split at hunits
    · rename_i h
      exact iff_of_true h hneg
    · omega
  · have hmul := Int.mul_pos hneg hpos
    split at hunits
    · omega
    · rename_i h
      exact iff_of_false h (by omega)

theorem natAbs_units (hx : x.IsWhole n) : x.units.natAbs = n.natAbs * unitsPerOne := by
  rw [hx.units_eq, Int.natAbs_mul, Int.natAbs_natCast]

end IsWhole

/-! ### Exact arithmetic -/

theorem mul_unitsPerOne_neg_iff : n * unitsPerOne < 0 ↔ n < 0 := by
  have hpos : (0 : Int) < unitsPerOne := Int.natCast_pos.2 unitsPerOne_pos
  refine ⟨fun hneg => ?_, fun hneg => Int.mul_neg_of_neg_of_pos hneg hpos⟩
  by_contra hle
  have := Int.mul_nonneg (Int.not_lt.1 hle) hpos.le
  omega

theorem ofInt_eq (n : Int) : ofInt n = ofRatio (decide (n < 0)) (n.natAbs * unitsPerOne) 1 := by
  rw [ofInt, ofUnits, decide_eq_decide.2 mul_unitsPerOne_neg_iff, Int.natAbs_mul,
    Int.natAbs_natCast]

theorem isWhole_ofInt (h : n.natAbs < 2 ^ 53) : (ofInt n).IsWhole n := by
  rw [ofInt_eq]
  exact isWhole_ofMagnitude h fun _ => rfl

namespace IsWhole

section Operands

variable (hx : x.IsWhole a) (hy : y.IsWhole b)
include hx hy

/-- A sum of whole numbers is exact. -/
theorem add (h : (a + b).natAbs < 2 ^ 53) : (x + y).IsWhole (a + b) := by
  have hpos : (0 : Int) < unitsPerOne := Int.natCast_pos.2 unitsPerOne_pos
  have hsum : x.units + y.units = (a + b) * unitsPerOne := by
    rw [hx.units_eq, hy.units_eq, Int.add_mul]
  show (Double.add x y).IsWhole (a + b)
  rw [Double.add, show x.isNaN = false from hx.isNumber, show y.isNaN = false from hy.isNumber,
    hx.isInfinite, hy.isInfinite, hsum]
  simp only [Bool.or_self, Bool.false_eq_true, if_false]
  split
  · rename_i hzero
    rw [(Int.mul_eq_zero.1 hzero).resolve_right hpos.ne']
    have hnone : (ofMagnitude (x.isNegative && y.isNegative)
        (magnitudeOfRatio ((0 : Int).natAbs * unitsPerOne) 1)).IsWhole 0 :=
      isWhole_ofMagnitude (by decide) fun hne => absurd rfl hne
    rwa [Int.natAbs_zero, Nat.zero_mul, magnitudeOfRatio_zero Nat.one_pos] at hnone
  · exact isWhole_ofInt h

/-- A product of whole numbers is the exact one, rounded, with its sign; zero may have either. -/
theorem mul_eq_ofMagnitude : ∃ negative,
    x * y = ofMagnitude negative (magnitudeOfRatio ((a * b).natAbs * unitsPerOne) 1) ∧
      (a * b ≠ 0 → negative = decide (a * b < 0)) := by
  have hratio : magnitudeOfRatio (x.units.natAbs * y.units.natAbs) unitsPerOne =
      magnitudeOfRatio ((a * b).natAbs * unitsPerOne) 1 := by
    refine magnitudeOfRatio_congr unitsPerOne_pos Nat.one_pos ?_
    rw [hx.natAbs_units, hy.natAbs_units, Int.natAbs_mul]
    ring
  refine ⟨x.isNegative != y.isNegative, ?_, fun hne => ?_⟩
  · show Double.mul x y = _
    rw [Double.mul, show x.isNaN = false from hx.isNumber, show y.isNaN = false from hy.isNumber,
      hx.isInfinite, hy.isInfinite]
    simp only [Bool.or_self, Bool.false_eq_true, if_false]
    rw [ofRatio, hratio]
  · obtain ⟨ha, hb⟩ := Int.mul_ne_zero_iff.1 hne
    rw [hx.isNegative_eq ha, hy.isNegative_eq hb, Bool.eq_iff_iff, bne_iff_ne, ne_eq,
      decide_eq_decide, decide_eq_true_iff, mul_neg_iff]
    omega

/-- A product of whole numbers is exact. -/
theorem mul (h : (a * b).natAbs < 2 ^ 53) : (x * y).IsWhole (a * b) := by
  obtain ⟨negative, hmul, hsign⟩ := hx.mul_eq_ofMagnitude hy
  rw [hmul]
  exact isWhole_ofMagnitude h hsign

end Operands

end IsWhole

/-- Sums of products of whole numbers are exact as long as all that is added up is small. -/
theorem isWhole_foldl : ∀ {es : List (Double × UInt32)} {x : Double} {n : Int}, x.IsWhole n →
    (∀ e ∈ es, e.1.IsWhole e.1.whole) →
    n.natAbs + sumOf (es.map fun e => e.1.whole.natAbs * e.2.toNat) < 2 ^ 53 →
    (es.foldl (fun sum e => sum + e.1 * ofNat e.2.toNat) x).IsWhole
      (n + (es.map fun e => e.1.whole * (e.2.toNat : Int)).sum)
  | [], x, n, hx, _, _ => by simpa using hx
  | e :: es, x, n, hx, hes, hlt => by
    obtain ⟨he, hes⟩ := List.forall_mem_cons.1 hes
    have hcount : e.2.toNat < 2 ^ 53 := e.2.toNat_lt.trans (by decide)
    have habs : (e.1.whole * e.2.toNat).natAbs = e.1.whole.natAbs * e.2.toNat := by
      rw [Int.natAbs_mul, Int.natAbs_natCast]
    rw [List.map_cons, sumOf, List.foldr_cons, ← sumOf, ← habs] at hlt
    have hterm : (e.1 * ofNat e.2.toNat).IsWhole (e.1.whole * e.2.toNat) :=
      he.mul (isWhole_ofNat hcount) (by omega)
    have hnext : (x + e.1 * ofNat e.2.toNat).IsWhole (n + e.1.whole * e.2.toNat) :=
      hx.add hterm (by omega)
    rw [List.foldl_cons, List.map_cons, List.sum_cons, ← Int.add_assoc]
    exact isWhole_foldl hnext hes (by omega)

/-- A natural number of at most 53 bits is told by its double. -/
theorem eq_of_same {k n : Nat} (hn : n + 1 < 2 ^ 53) (h : (ofNat k).same (ofNat n) = true) :
    k = n := by
  have hrank : (ofNat k).rank = (ofNat n).rank := (same_iff_and.1 h).2
  rw [(isAmount_ofNat k).rank_eq, (isAmount_ofNat n).rank_eq, Int.natCast_inj] at hrank
  have hamount : (ofNat k).amount = n * unitsPerOne :=
    (congrArg unitsOfMagnitude hrank).trans (amount_ofNat (by omega))
  have hpos := unitsPerOne_pos
  by_contra hne
  rcases Nat.lt_or_gt_of_ne hne with hlt | hlt
  · rw [amount_ofNat (by omega)] at hamount
    exact hne (Nat.mul_right_cancel hpos hamount)
  · have hnext := amount_ofNat_mono (Nat.succ_le_of_lt hlt)
    rw [amount_ofNat hn, hamount] at hnext
    exact Nat.not_succ_le_self n (Nat.le_of_mul_le_mul_right hnext hpos)

/-! ### Rounding up -/

theorem isAmount_of_rank_pos (hx : x.IsNumber) (h : 0 < x.rank) : IsAmount x := by
  have hsign : x.isNegative = false := by
    rw [rank] at h
    split at h
    · omega
    · rename_i hneg
      exact Bool.eq_false_iff.2 hneg
  have hlt : x.bits.toNat < signBit := Nat.lt_of_not_le (of_decide_eq_false hsign)
  have hle : ¬ infinityMagnitude < x.magnitude := of_decide_eq_false hx
  rw [magnitude, Nat.mod_eq_of_lt hlt] at hle
  exact Nat.le_of_not_lt hle

/-- Infinity is the double nearest to any number that is large enough. -/
theorem exists_ofNat_of_isInfinite (hx : IsAmount x) (h : x.isInfinite = true) :
    ∃ n, 0 < n ∧ x = ofNat n := by
  have hpos : unitsOfMagnitude infinityMagnitude ≠ 0 :=
    mt (unitsOfMagnitude_eq_zero_iff (Nat.le_refl _)).1 (by decide)
  refine ⟨_, Nat.pos_of_ne_zero hpos, hx.ext (isAmount_ofNat _) ?_⟩
  rw [IsAmount.amount_of_isInfinite h, amount_ofNat_eq_nearest, nearest_eq_infinity]
  exact Nat.le_mul_of_pos_right _ unitsPerOne_pos

/-- What is positive once it is rounded up is a whole number then. -/
theorem exists_ceil_eq_ofNat (hx : x.ceil.IsNumber) (h : 0 < x.ceil.rank) :
    ∃ n, 0 < n ∧ x.ceil = ofNat n := by
  have hamount := isAmount_of_rank_pos hx h
  cases hfin : x.isFinite with
  | false =>
    have hceil : x.ceil = x := by rw [ceil, hfin]; rfl
    rw [hceil] at hamount ⊢
    refine exists_ofNat_of_isInfinite hamount (hamount.isInfinite_or.resolve_right fun hlt => ?_)
    exact Bool.false_ne_true (hfin.symm.trans (decide_eq_true hlt.2))
  | true =>
    have hceil : x.ceil = if x.ceilInt = 0 then ofMagnitude x.isNegative 0 else ofInt x.ceilInt := by
      rw [ceil, hfin]
      rfl
    rw [hceil] at h ⊢
    split at h
    · have hzero : (ofMagnitude x.isNegative 0).isZero = true :=
        decide_eq_true (magnitude_ofMagnitude_signed x.isNegative (Nat.zero_le _))
      rw [rank_of_isZero hzero] at h
      exact absurd h (Int.lt_irrefl 0)
    · rename_i hne
      rw [if_neg hne]
      rcases Int.lt_or_gt_of_ne hne with hneg | hneg
      · have hsign : (ofInt x.ceilInt).isNegative = true := by
          rw [ofInt_eq, decide_eq_true hneg]
          exact isNegative_ofMagnitude true (magnitudeOfRatio_le ..)
        rw [rank, if_pos hsign] at h
        omega
      · obtain ⟨n, hn⟩ := Int.eq_ofNat_of_zero_le hneg.le
        refine ⟨n, by omega, ?_⟩
        rw [hn, ofInt_eq, decide_eq_false (by omega), Int.natAbs_natCast]
        rfl

/-- A whole number raised to a rounded one is whole. -/
theorem exists_max_ceil_eq_ofNat {k : Nat} (hk : 0 < k) (x : Double) :
    ∃ n, 0 < n ∧ (ofNat k).max x.ceil = ofNat n := by
  have hamount := isAmount_ofNat k
  rw [Double.max, hamount.isNaN, if_neg Bool.false_ne_true]
  split
  · exact ⟨k, hk, rfl⟩
  split
  · rename_i hle
    obtain ⟨⟨-, hnumber⟩, hrank⟩ := le_iff_and.1 hle
    have hpos : (ofNat k).magnitude ≠ 0 := of_decide_eq_false (isZero_eq_false (amount_ofNat_pos hk))
    rw [hamount.rank_eq] at hrank
    exact exists_ceil_eq_ofNat hnumber (by omega)
  · exact ⟨k, hk, rfl⟩

/-! ### Multiples of counts -/

theorem product_comm (x y : Double) : x * y = y * x := by
  show Double.mul x y = Double.mul y x
  rw [Double.mul, Double.mul, bne_comm, Bool.or_comm x.isNaN, Bool.or_comm x.isInfinite,
    Bool.or_comm x.isZero, Nat.mul_comm x.units.natAbs]

section Counts

variable {k c limit : Nat}

theorem toNatUpTo_ceil_of_le (hx : IsAmount x) (hlimit : limit < 2 ^ 53)
    (h : limit * unitsPerOne ≤ x.amount) : x.ceil.toNatUpTo limit = limit := by
  obtain ⟨n, hceil, hle⟩ : ∃ n, x.ceil = ofNat n ∧ limit ≤ n := by
    cases hfin : x.isFinite with
    | true =>
      obtain ⟨n, hceil, hle⟩ := ceil_eq_ofNat hx hfin
      exact ⟨n, hceil, Nat.le_of_mul_le_mul_right (h.trans hle) unitsPerOne_pos⟩
    | false =>
      have hinf : x.isInfinite = true := hx.isInfinite_or.resolve_right fun hlt =>
        Bool.false_ne_true (hfin.symm.trans (decide_eq_true hlt.2))
      obtain ⟨n, -, rfl⟩ := exists_ofNat_of_isInfinite hx hinf
      refine ⟨n, by rw [ceil, hfin]; rfl, Nat.le_of_not_lt fun hlt => ?_⟩
      rw [amount_ofNat (hlt.trans hlimit)] at h
      exact Nat.not_lt_of_le h (Nat.mul_lt_mul_of_pos_right hlt unitsPerOne_pos)
  rw [hceil, toNatUpTo_ofNat hlimit]
  exact Nat.min_eq_right hle

/-- A natural number is not changed by rounding it up. -/
theorem toNatUpTo_ceil_ofNat (hlimit : limit < 2 ^ 53) (n : Nat) :
    (ofNat n).ceil.toNatUpTo limit = Nat.min n limit := by
  rcases Nat.lt_or_ge n limit with hlt | hge
  · have hwhole : (ofNat n).IsWhole n := isWhole_ofNat (hlt.trans hlimit)
    have hpos : (0 : Int) < unitsPerOne := Int.natCast_pos.2 unitsPerOne_pos
    have hceil : (ofNat n).ceilInt = n := by
      rw [ceilInt, hwhole.units_eq, ← Int.neg_mul, Int.mul_ediv_cancel _ hpos.ne', Int.neg_neg]
    rcases Nat.eq_zero_or_pos n with rfl | hn
    · exact toNatUpTo_ceil_zero.trans (Nat.zero_min limit).symm
    · rw [ceil, hwhole.isFinite, hceil]
      simp only [Bool.not_true, Bool.false_eq_true, if_false]
      rw [if_neg (by omega), ofInt_eq, decide_eq_false (by omega), Int.natAbs_natCast]
      exact toNatUpTo_ofNat hlimit
  · rw [toNatUpTo_ceil_of_le (isAmount_ofNat n) hlimit]
    · exact (Nat.min_eq_right hge).symm
    · rw [← amount_ofNat hlimit]
      exact amount_ofNat_mono hge

/-- A number of counts, rounded up and kept within a limit. -/
theorem toNatUpTo_ceil_mul (hlimit : limit < 2 ^ 53) (hc : 0 < c) (hc' : c < 2 ^ 53) :
    (ofNat c * ofNat k).ceil.toNatUpTo limit = Nat.min (k * c) limit := by
  rw [product_comm]
  have hx := isAmount_ofNat k
  rcases Nat.lt_or_ge k (2 ^ 53) with hk | hk
  · have heq : ofNat k * ofNat c = ofNat (k * c) := by
      refine (hx.mul_ofNat hc hc').ext (isAmount_ofNat _) ?_
      rw [amount_mul_ofNat hx hc hc', amount_ofNat hk, amount_ofNat_eq_nearest, Nat.mul_right_comm]
    rw [heq, toNatUpTo_ceil_ofNat hlimit]
  · rw [toNatUpTo_ceil_of_le (hx.mul_ofNat hc hc') hlimit]
    · exact (Nat.min_eq_right ((hlimit.le.trans hk).trans (Nat.le_mul_of_pos_right k hc))).symm
    · rw [← amount_ofNat hlimit]
      exact (amount_ofNat_mono (hlimit.le.trans hk)).trans (amount_le_mul_ofNat hx hc hc')

end Counts

end Muster.Double
