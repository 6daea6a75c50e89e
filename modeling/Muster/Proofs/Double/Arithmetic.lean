import Muster.Proofs.Double.Amounts

/-!
Arithmetic of amounts. Sums and products are the exact results rounded, for infinity as well, so
they are monotone, and they are nothing only if all that goes into them is. Rounding up never goes
below, and whole numbers of at most 53 bits are divided closely enough to tell how often one meets
another.

Main statements: `amount_add`, `amount_mul_ofNat`, `isAmount_div`, `amount_foldl_mono`,
`ceil_eq_least`, `le_toNatUpTo_ceil`, `le_mul_of_div_ofNat_le`.
-/

namespace Muster.Double

/-! ### Sums, products and quotients -/

section Arithmetic

variable {x y x' y' : Double}

/-- A sum of amounts is the exact sum, rounded. -/
theorem isAmount_add (hx : IsAmount x) (hy : IsAmount y) :
    IsAmount (x + y) ∧ (x + y).amount = nearest (x.amount + y.amount) 1 := by
  show IsAmount (add x y) ∧ (add x y).amount = _
  rw [add, hx.isNaN, hy.isNaN, hx.isNegative, hy.isNegative, hx.units_eq, hy.units_eq]
  rcases hx.isInfinite_or with hinf | ⟨hfin, -⟩
  · have htop := IsAmount.amount_of_isInfinite hinf
    simp only [hinf, Bool.or_self, Bool.false_eq_true, if_false, if_true, bne_self_eq_false,
      Bool.and_false]
    exact ⟨hx, by rw [nearest_eq_infinity (by omega), htop]⟩
  rcases hy.isInfinite_or with hinf' | ⟨hfin', -⟩
  · have htop := IsAmount.amount_of_isInfinite hinf'
    simp only [hfin, hinf', Bool.or_self, Bool.false_eq_true, if_false, if_true]
    exact ⟨hy, by rw [nearest_eq_infinity (by omega), htop]⟩
  · simp only [hfin, hfin', Bool.or_self, Bool.false_eq_true, if_false, Bool.and_self]
    split
    · rename_i hzero
      have hsum : x.amount + y.amount = 0 := by omega
      rw [hsum, nearest_zero]
      exact ⟨isAmount_ofMagnitude (Nat.zero_le _), by
        rw [amount, magnitude_ofMagnitude (Nat.zero_le _)]; exact if_pos fractionSize_pos⟩
    · have hneg : ¬ ((x.amount : Int) + y.amount < 0) := by omega
      have habs : ((x.amount : Int) + y.amount).natAbs = x.amount + y.amount := by omega
      rw [ofUnits, decide_eq_false hneg, habs]
      exact ⟨isAmount_ofRatio .., amount_ofRatio ..⟩

theorem IsAmount.add (hx : IsAmount x) (hy : IsAmount y) : IsAmount (x + y) :=
  (isAmount_add hx hy).1

theorem amount_add (hx : IsAmount x) (hy : IsAmount y) :
    (x + y).amount = nearest (x.amount + y.amount) 1 := (isAmount_add hx hy).2

theorem amount_add_mono (hx : IsAmount x) (hy : IsAmount y) (hx' : IsAmount x')
    (hy' : IsAmount y') (hle : x.amount ≤ x'.amount) (hle' : y.amount ≤ y'.amount) :
    (x + y).amount ≤ (x' + y').amount := by
  rw [amount_add hx hy, amount_add hx' hy']
  exact nearest_one_mono (Nat.add_le_add hle hle')

theorem amount_le_add_right (hx : IsAmount x) (hy : IsAmount y) : x.amount ≤ (x + y).amount := by
  rw [amount_add hx hy]
  exact hx.nearest_eq.ge.trans (nearest_one_mono (Nat.le_add_right _ _))

theorem amount_le_add_left (hx : IsAmount x) (hy : IsAmount y) : y.amount ≤ (x + y).amount := by
  rw [amount_add hx hy]
  exact hy.nearest_eq.ge.trans (nearest_one_mono (Nat.le_add_left _ _))

/-- Adding nothing changes nothing. -/
theorem add_eq_left (hx : IsAmount x) (hy : IsAmount y) (h : y.amount = 0) : x + y = x := by
  refine (hx.add hy).ext hx ?_
  rw [amount_add hx hy, h, Nat.add_zero, hx.nearest_eq]

theorem amount_add_eq_zero_iff (hx : IsAmount x) (hy : IsAmount y) :
    (x + y).amount = 0 ↔ x.amount = 0 ∧ y.amount = 0 := by
  constructor
  · intro h
    have hle := amount_le_add_right hx hy
    have hle' := amount_le_add_left hx hy
    omega
  · rintro ⟨h, h'⟩
    rw [add_eq_left hx hy h', h]

/-- A number of amounts is the exact product, rounded. -/
theorem isAmount_mul_ofNat {n : Nat} (hx : IsAmount x) (hpos : 0 < n) (hn : n < 2 ^ 53) :
    IsAmount (x * ofNat n) ∧ (x * ofNat n).amount = nearest (x.amount * n) 1 := by
  have hy := isAmount_ofNat n
  have hfin : (ofNat n).isInfinite = false := decide_eq_false (magnitude_ofNat_lt hn).ne
  show IsAmount (mul x (ofNat n)) ∧ (mul x (ofNat n)).amount = _
  rw [mul, hx.isNaN, hy.isNaN, hx.isNegative, hy.isNegative, hfin]
  rcases hx.isInfinite_or with hinf | ⟨hfin', -⟩
  · have htop := IsAmount.amount_of_isInfinite hinf
    have hzero : x.isZero = false := by
      rw [isZero, of_decide_eq_true hinf]
      rfl
    have hzero' : (ofNat n).isZero = false := isZero_eq_false (amount_ofNat_pos hpos)
    simp only [hinf, hzero, hzero', Bool.or_self, Bool.or_false, Bool.false_eq_true, if_false,
      if_true, bne_self_eq_false]
    refine ⟨isAmount_ofMagnitude (Nat.le_refl _), ?_⟩
    rw [amount, magnitude_ofMagnitude (Nat.le_refl _), nearest_eq_infinity]
    rw [htop]
    exact Nat.le_mul_of_pos_right _ hpos
  · simp only [hfin', Bool.or_self, Bool.false_eq_true, if_false, bne_self_eq_false]
    refine ⟨isAmount_ofRatio .., (amount_ofRatio ..).trans ?_⟩
    rw [hx.units_eq, hy.units_eq, Int.natAbs_natCast, Int.natAbs_natCast, amount_ofNat hn]
    exact nearest_congr unitsPerOne_pos Nat.one_pos (by ring)

theorem IsAmount.mul_ofNat {n : Nat} (hx : IsAmount x) (hpos : 0 < n) (hn : n < 2 ^ 53) :
    IsAmount (x * ofNat n) := (isAmount_mul_ofNat hx hpos hn).1

theorem amount_mul_ofNat {n : Nat} (hx : IsAmount x) (hpos : 0 < n) (hn : n < 2 ^ 53) :
    (x * ofNat n).amount = nearest (x.amount * n) 1 := (isAmount_mul_ofNat hx hpos hn).2

theorem amount_le_mul_ofNat {n : Nat} (hx : IsAmount x) (hpos : 0 < n) (hn : n < 2 ^ 53) :
    x.amount ≤ (x * ofNat n).amount := by
  rw [amount_mul_ofNat hx hpos hn]
  exact hx.nearest_eq.ge.trans (nearest_one_mono (Nat.le_mul_of_pos_right _ hpos))

theorem amount_mul_ofNat_mono {n n' : Nat} (hx : IsAmount x) (hpos : 0 < n) (hle : n ≤ n')
    (hn : n' < 2 ^ 53) : (x * ofNat n).amount ≤ (x * ofNat n').amount := by
  rw [amount_mul_ofNat hx hpos (by omega), amount_mul_ofNat hx (by omega) hn]
  exact nearest_one_mono (Nat.mul_le_mul_left _ hle)

theorem amount_mul_ofNat_eq_zero_iff {n : Nat} (hx : IsAmount x) (hpos : 0 < n)
    (hn : n < 2 ^ 53) : (x * ofNat n).amount = 0 ↔ x.amount = 0 := by
  constructor
  · intro h
    have hle := amount_le_mul_ofNat hx hpos hn
    omega
  · intro h
    rw [amount_mul_ofNat hx hpos hn, h, Nat.zero_mul, nearest_zero]

/-- Nothing divided by something is nothing. -/
theorem isAmount_div_of_eq_zero (hx : IsAmount x) (hy : IsAmount y) (hzero : x.amount = 0)
    (hpos : 0 < y.amount) : IsAmount (x / y) ∧ (x / y).amount = 0 := by
  have hfin : x.isInfinite = false := by
    rcases hx.isInfinite_or with hinf | ⟨hfin, -⟩
    · have hone := amount_ofNat_pos Nat.one_pos
      have hle := nearest_le_infinity (1 * unitsPerOne) 1
      rw [← amount_ofNat_eq_nearest, ← IsAmount.amount_of_isInfinite hinf] at hle
      omega
    · exact hfin
  have hnot : y.isZero = false := isZero_eq_false hpos
  show IsAmount (div x y) ∧ (div x y).amount = 0
  rw [div, hx.isNaN, hy.isNaN, hx.isNegative, hy.isNegative, hfin, hnot]
  simp only [Bool.or_self, Bool.false_eq_true, if_false, bne_self_eq_false]
  split
  · exact ⟨isAmount_ofMagnitude (Nat.zero_le _), by
      rw [amount, magnitude_ofMagnitude (Nat.zero_le _)]; exact if_pos fractionSize_pos⟩
  · refine ⟨isAmount_ofRatio .., (amount_ofRatio ..).trans ?_⟩
    rw [hx.units_eq, hy.units_eq, hzero, Int.natAbs_natCast, Int.natAbs_natCast]
    exact (nearest_congr hpos Nat.one_pos (by omega)).trans nearest_zero

/-- A quotient of finite amounts is the exact quotient, rounded. -/
theorem isAmount_div (hx : IsAmount x) (hy : IsAmount y) (hfin : x.isInfinite = false)
    (hfin' : y.isInfinite = false) (hpos : 0 < y.amount) :
    IsAmount (x / y) ∧ (x / y).amount = nearest (x.amount * unitsPerOne) y.amount := by
  show IsAmount (div x y) ∧ (div x y).amount = _
  rw [div, hx.isNaN, hy.isNaN, hx.isNegative, hy.isNegative, hfin, hfin', isZero_eq_false hpos]
  simp only [Bool.or_self, Bool.false_eq_true, if_false, bne_self_eq_false]
  rw [hx.units_eq, hy.units_eq, Int.natAbs_natCast, Int.natAbs_natCast]
  exact ⟨isAmount_ofRatio .., amount_ofRatio ..⟩

/-- Dividing by one or more does not enlarge. -/
theorem amount_div_le (hx : IsAmount x) (hy : IsAmount y) (hfin : x.isInfinite = false)
    (hfin' : y.isInfinite = false) (hone : unitsPerOne ≤ y.amount) :
    (x / y).amount ≤ x.amount := by
  have hpos := lt_of_lt_of_le unitsPerOne_pos hone
  rw [(isAmount_div hx hy hfin hfin' hpos).2]
  refine (nearest_mono hpos Nat.one_pos ?_).trans hx.nearest_eq.le
  rw [Nat.mul_one]
  exact Nat.mul_le_mul_left _ hone

/-- A quotient of amounts that is finite is an amount. -/
theorem isAmount_div_of_isFinite (hx : IsAmount x) (hy : IsAmount y) (hpos : 0 < y.amount)
    (h : (x / y).isFinite = true) : IsAmount (x / y) := by
  have hnan : nan.isFinite = false := by decide
  have hinf : (ofMagnitude false infinityMagnitude).isFinite = false := by decide
  have hdiv : x / y = div x y := rfl
  rw [hdiv] at h ⊢
  rw [div, hx.isNaN, hy.isNaN, hx.isNegative, hy.isNegative, isZero_eq_false hpos] at h ⊢
  simp only [Bool.or_self, Bool.false_eq_true, if_false, bne_self_eq_false] at h ⊢
  split_ifs at h ⊢
  · rw [hnan] at h
    exact absurd h Bool.false_ne_true
  · rw [hinf] at h
    exact absurd h Bool.false_ne_true
  · exact isAmount_ofMagnitude (Nat.zero_le _)
  · exact isAmount_ofRatio ..

end Arithmetic

/-! ### Sums of lists -/

section Sum

variable {α : Type} {h : α → Double} {s s' : Double} {es fs : List α}

theorem isAmount_foldl (hs : IsAmount s) (hes : ∀ e ∈ es, IsAmount (h e)) :
    IsAmount (es.foldl (fun sum e => sum + h e) s) := by
  induction es generalizing s with
  | nil => exact hs
  | cons e rest ih =>
    exact ih (hs.add (hes e List.mem_cons_self)) fun f hf => hes f (List.mem_cons_of_mem _ hf)

/-- Further terms and larger ones do not lower a sum. -/
theorem amount_foldl_mono {r : α → α → Prop} (hes : ∀ e ∈ es, IsAmount (h e))
    (hfs : ∀ e ∈ fs, IsAmount (h e)) (hr : ∀ {e f}, e ∈ es → f ∈ fs → r e f →
      (h e).amount ≤ (h f).amount) (hsub : List.SublistForall₂ r es fs) (hs : IsAmount s)
    (hs' : IsAmount s') (hle : s.amount ≤ s'.amount) :
    (es.foldl (fun sum e => sum + h e) s).amount ≤
      (fs.foldl (fun sum e => sum + h e) s').amount := by
  induction hsub generalizing s s' with
  | @nil fs =>
    clear hr
    induction fs generalizing s' with
    | nil => exact hle
    | cons f rest ih =>
      have hf := hfs f List.mem_cons_self
      exact ih (fun e he => hfs e (List.mem_cons_of_mem _ he)) (hs'.add hf)
        (hle.trans (amount_le_add_right hs' hf))
  | @cons e f es fs hef _ ih =>
    have he := hes e List.mem_cons_self
    have hf := hfs f List.mem_cons_self
    refine ih (fun e' h' => hes e' (List.mem_cons_of_mem _ h'))
      (fun f' h' => hfs f' (List.mem_cons_of_mem _ h'))
      (fun he' hf' => hr (List.mem_cons_of_mem _ he') (List.mem_cons_of_mem _ hf'))
      (hs.add he) (hs'.add hf) ?_
    exact amount_add_mono hs he hs' hf hle (hr List.mem_cons_self List.mem_cons_self hef)
  | @cons_right f es fs _ ih =>
    have hf := hfs f List.mem_cons_self
    exact ih hes (fun f' h' => hfs f' (List.mem_cons_of_mem _ h'))
      (fun he' hf' => hr he' (List.mem_cons_of_mem _ hf')) hs (hs'.add hf)
      (hle.trans (amount_le_add_right hs' hf))

theorem amount_foldl_eq_zero_iff (hs : IsAmount s) (hes : ∀ e ∈ es, IsAmount (h e)) :
    (es.foldl (fun sum e => sum + h e) s).amount = 0 ↔
      s.amount = 0 ∧ ∀ e ∈ es, (h e).amount = 0 := by
  induction es generalizing s with
  | nil => simp
  | cons e rest ih =>
    have he := hes e List.mem_cons_self
    rw [List.foldl_cons, ih (hs.add he) fun f hf => hes f (List.mem_cons_of_mem _ hf),
      amount_add_eq_zero_iff hs he, List.forall_mem_cons, and_assoc]

theorem amount_le_foldl (hs : IsAmount s) (hes : ∀ e ∈ es, IsAmount (h e)) :
    s.amount ≤ (es.foldl (fun sum e => sum + h e) s).amount := by
  induction es generalizing s with
  | nil => exact Nat.le_refl _
  | cons e rest ih =>
    have he := hes e List.mem_cons_self
    exact (amount_le_add_right hs he).trans
      (ih (hs.add he) fun f hf => hes f (List.mem_cons_of_mem _ hf))

theorem amount_term_le_foldl (hs : IsAmount s) (hes : ∀ e ∈ es, IsAmount (h e)) {e : α}
    (he : e ∈ es) : (h e).amount ≤ (es.foldl (fun sum e => sum + h e) s).amount := by
  induction es generalizing s with
  | nil => exact absurd he List.not_mem_nil
  | cons f rest ih =>
    have hf := hes f List.mem_cons_self
    have hrest : ∀ e ∈ rest, IsAmount (h e) := fun e he => hes e (List.mem_cons_of_mem _ he)
    rcases List.mem_cons.1 he with rfl | he
    · exact (amount_le_add_left hs hf).trans (amount_le_foldl (hs.add hf) hrest)
    · exact ih (hs.add hf) hrest he

/-- Terms that are nothing can be left out. -/
theorem foldl_filter_eq {keep : α → Bool} (hs : IsAmount s) (hes : ∀ e ∈ es, IsAmount (h e))
    (hzero : ∀ e ∈ es, keep e = false → (h e).amount = 0) :
    (es.filter keep).foldl (fun sum e => sum + h e) s = es.foldl (fun sum e => sum + h e) s := by
  induction es generalizing s with
  | nil => rfl
  | cons e rest ih =>
    have he := hes e List.mem_cons_self
    have hrest := fun f hf => hes f (List.mem_cons_of_mem e hf)
    have hzero' := fun f hf => hzero f (List.mem_cons_of_mem e hf)
    rw [List.filter_cons, List.foldl_cons]
    split
    · exact ih (hs.add he) hrest hzero'
    · rename_i hdrop
      rw [add_eq_left hs he (hzero e List.mem_cons_self (Bool.not_eq_true _ ▸ hdrop))]
      exact ih hs hrest hzero'

end Sum

/-! ### Whole numbers at or above an amount -/

section Whole

variable {x : Double}

/-- Rounding up gives the least whole number that is not below. -/
theorem ceil_eq_least (hx : IsAmount x) (hfin : x.isFinite = true) :
    ∃ n, x.ceil = ofNat n ∧ ∀ q, n ≤ q ↔ x.amount ≤ q * unitsPerOne := by
  have hpos : (0 : Int) < unitsPerOne := Int.natCast_pos.2 unitsPerOne_pos
  have hceil : x.ceilInt = -(-(x.amount : Int) / unitsPerOne) := by rw [ceilInt, hx.units_eq]
  have hle : ∀ q : Int, x.ceilInt ≤ q ↔ (x.amount : Int) ≤ q * unitsPerOne := fun q => by
    have hdiv := Int.le_ediv_iff_mul_le hpos (a := -q) (b := -(x.amount : Int))
    rw [Int.neg_mul] at hdiv
    omega
  have hnonneg : 0 ≤ x.ceilInt := by
    by_contra hneg
    have := (hle (-1)).1 (by omega)
    omega
  obtain ⟨n, hn⟩ := Int.eq_ofNat_of_zero_le hnonneg
  rw [hn] at hle
  refine ⟨n, ?_, fun q => by exact_mod_cast hle q⟩
  rw [ceil, hfin, hx.isNegative, hn]
  simp only [Bool.not_true, Bool.false_eq_true, if_false]
  split
  · rename_i hzero
    obtain rfl : n = 0 := by omega
    refine (isAmount_ofMagnitude (Nat.zero_le _)).ext (isAmount_ofNat 0) ?_
    rw [amount_ofNat_zero, amount, magnitude_ofMagnitude (Nat.zero_le _)]
    exact if_pos fractionSize_pos
  · have hneg : ¬ ((n : Int) * unitsPerOne < 0) := by
      have := Int.mul_nonneg (Int.natCast_nonneg n) hpos.le
      omega
    rw [ofInt, ofUnits, decide_eq_false hneg, Int.natAbs_mul, Int.natAbs_natCast,
      Int.natAbs_natCast]
    rfl

/-- Rounding up gives a whole number that is not below. -/
theorem ceil_eq_ofNat (hx : IsAmount x) (hfin : x.isFinite = true) :
    ∃ n, x.ceil = ofNat n ∧ x.amount ≤ n * unitsPerOne := by
  obtain ⟨n, hceil, hleast⟩ := ceil_eq_least hx hfin
  exact ⟨n, hceil, (hleast n).1 (Nat.le_refl n)⟩

theorem toNatUpTo_ofNat {n limit : Nat} (hlimit : limit < 2 ^ 53) :
    (ofNat n).toNatUpTo limit = Nat.min n limit := by
  have hx := isAmount_ofNat n
  rw [toNatUpTo, hx.isNaN, hx.isNegative, hx.units_eq, Int.natAbs_natCast]
  simp only [Bool.or_self, Bool.false_eq_true, if_false]
  rcases Nat.lt_or_ge n limit with hlt | hge
  · have hfin : (ofNat n).isInfinite = false :=
      decide_eq_false (magnitude_ofNat_lt (hlt.trans hlimit)).ne
    rw [hfin, amount_ofNat (hlt.trans hlimit), Nat.mul_div_cancel _ unitsPerOne_pos]
    rfl
  · have hmono := amount_ofNat_mono hge
    rw [amount_ofNat hlimit] at hmono
    have hdiv := (Nat.le_div_iff_mul_le unitsPerOne_pos).2 hmono
    rw [show Nat.min n limit = limit from Nat.min_eq_right hge]
    split
    · rfl
    · exact Nat.min_eq_right hdiv

theorem toNatUpTo_le (limit : Nat) (x : Double) : x.toNatUpTo limit ≤ limit := by
  rw [toNatUpTo]
  split_ifs
  · exact Nat.zero_le _
  · exact Nat.le_refl _
  · exact Nat.min_le_right ..

/-- Rounding up and cutting off at a limit gives a number that is not below, or the limit. -/
theorem le_toNatUpTo_ceil {limit : Nat} (hx : IsAmount x) (hfin : x.isFinite = true)
    (hlimit : limit < 2 ^ 53) : x.amount ≤ x.ceil.toNatUpTo limit * unitsPerOne ∨
      x.ceil.toNatUpTo limit = limit := by
  obtain ⟨n, hceil, hle⟩ := ceil_eq_ofNat hx hfin
  rw [hceil, toNatUpTo_ofNat hlimit]
  rcases Nat.le_total n limit with h | h
  · rw [show Nat.min n limit = n from Nat.min_eq_left h]
    exact .inl hle
  · exact .inr (Nat.min_eq_right h)

theorem toNatUpTo_ceil_zero {limit : Nat} : (ceil 0).toNatUpTo limit = 0 := by
  have hceil : ceil 0 = 0 := by decide +kernel
  have hunits : (units 0).natAbs / unitsPerOne = 0 := by decide +kernel
  have hinf : isInfinite 0 = false := by decide +kernel
  rw [hceil, toNatUpTo, isAmount_zero.isNaN, isAmount_zero.isNegative, hinf, hunits]
  exact Nat.zero_min limit

end Whole

/-! ### How often an amount meets another -/

theorem two_pow_le_unitsPerOne : 2 ^ 53 ≤ unitsPerOne := by
  obtain ⟨n, hn⟩ : ∃ n, n = 1074 := ⟨1074, rfl⟩
  rw [unitsPerOne_eq hn]
  exact Nat.pow_le_pow_right (by decide) (by omega)

theorem isInfinite_ofNat {n : Nat} (hn : n < 2 ^ 53) : (ofNat n).isInfinite = false :=
  decide_eq_false (magnitude_ofNat_lt hn).ne

theorem isFinite_div_ofNat {a y : Nat} (ha : a < 2 ^ 53) (hy : y < 2 ^ 53) (hypos : 0 < y) :
    (ofNat a / ofNat y).isFinite = true := by
  have hquotient := isAmount_div (isAmount_ofNat a) (isAmount_ofNat y) (isInfinite_ofNat ha)
    (isInfinite_ofNat hy) (amount_ofNat_pos hypos)
  refine isFinite_of_le hquotient.1 (isAmount_ofNat a) ?_ (decide_eq_true (magnitude_ofNat_lt ha))
  refine amount_div_le (isAmount_ofNat a) (isAmount_ofNat y) (isInfinite_ofNat ha)
    (isInfinite_ofNat hy) ?_
  rw [amount_ofNat hy]
  exact Nat.le_mul_of_pos_left _ hypos

theorem amount_div_ofNat_pos {a y : Nat} (ha : a < 2 ^ 53) (hy : y < 2 ^ 53) (hapos : 0 < a)
    (hypos : 0 < y) : 0 < (ofNat a / ofNat y).amount := by
  have hyamount := amount_ofNat_pos hypos
  rw [(isAmount_div (isAmount_ofNat a) (isAmount_ofNat y) (isInfinite_ofNat ha)
    (isInfinite_ofNat hy) hyamount).2, amount_ofNat ha, amount_ofNat hy]
  refine nearest_pos (Nat.mul_pos hypos unitsPerOne_pos) (Nat.mul_le_mul_right _ ?_)
  exact (hy.le.trans two_pow_le_unitsPerOne).trans (Nat.le_mul_of_pos_left _ hapos)

/-- The least number of more than 53 bits is exact, too. -/
theorem amount_ofNat_limit : (ofNat (2 ^ 53)).amount = 2 ^ 53 * unitsPerOne := by decide +kernel

theorem isFinite_of_amount_le {x : Double} (hx : IsAmount x) (h : x.amount ≤ 2 ^ 53 * unitsPerOne) :
    x.isFinite = true :=
  isFinite_of_le hx (isAmount_ofNat (2 ^ 53)) (h.trans amount_ofNat_limit.ge) (by decide +kernel)

/-- Below the numbers of more than 53 bits, the distance between neighbours divides one. -/
theorem exists_isMantissa_of_amount_lt {x : Double} (h : x.amount < 2 ^ 53 * unitsPerOne) :
    ∃ s t, IsMantissa s t ∧ x.amount = t * 2 ^ s ∧ 2 ^ s ∣ unitsPerOne := by
  obtain ⟨s, t, ht, hmag⟩ := exists_isMantissa x.magnitude
  have hx : x.amount = t * 2 ^ s := by rw [amount, hmag, unitsOfMagnitude_eq ht]
  obtain ⟨n, hn⟩ : ∃ n, n = 1074 := ⟨1074, rfl⟩
  rw [unitsPerOne_eq hn] at h ⊢
  refine ⟨s, t, ht, hx, Nat.pow_dvd_pow 2 ?_⟩
  by_cases hs : s = 0
  · omega
  have htop : 2 ^ 53 = 2 * fractionSize := by decide
  have hlt : fractionSize * 2 ^ s < fractionSize * 2 ^ (n + 1) := by
    calc fractionSize * 2 ^ s ≤ t * 2 ^ s := Nat.mul_le_mul_right _ (ht.le hs)
      _ = x.amount := hx.symm
      _ < 2 ^ 53 * 2 ^ n := h
      _ = fractionSize * 2 ^ (n + 1) := by rw [htop]; ring
  exact Nat.le_of_lt_succ ((Nat.pow_lt_pow_iff_right (by decide)).1 (Nat.lt_of_mul_lt_mul_left hlt))

/-- If the rounded quotient of an amount `x` and `y` is at most `k` then `k` times `y` is at least `x`.
As all three have at most 53 bits before the point, an amount above a product of whole numbers is so
far from it that dividing it by one of them does not round it to the other. -/
theorem le_mul_of_div_ofNat_le {x : Double} {y k : Nat} (hx : IsAmount x)
    (hlt : x.amount < 2 ^ 53 * unitsPerOne) (hypos : 0 < y) (hy : y < 2 ^ 53)
    (hk : k < 2 ^ 53) (hkpos : 0 < k) (h : (x / ofNat y).amount ≤ k * unitsPerOne) :
    x.amount ≤ y * k * unitsPerOne := by
  by_contra hle
  rw [Nat.not_le] at hle
  have hfin : x.isInfinite = false :=
    decide_eq_false (of_decide_eq_true (isFinite_of_amount_le hx hlt.le)).ne
  rw [(isAmount_div hx (isAmount_ofNat y) hfin (isInfinite_ofNat hy)
    (amount_ofNat_pos hypos)).2, amount_ofNat hy] at h
  obtain ⟨s, t, ht, hunits, hmag⟩ := exists_isMantissa_ofNat hk
  obtain ⟨s', t', ht', hamount, i, hi⟩ := exists_isMantissa_of_amount_lt hlt
  rw [hamount] at hle h
  rw [← hunits, ← unitsOfMagnitude_eq ht, nearest,
    unitsOfMagnitude_le_iff (magnitudeOfRatio_le ..) hmag.le] at h
  refine Nat.not_lt_of_le h (lt_magnitudeOfRatio (Nat.mul_pos hypos unitsPerOne_pos) ht hmag ?_)
  have htop : 2 ^ 53 = 2 * fractionSize := by decide
  -- the product is a multiple of the distance between `x` and its neighbours
  have hnext : y * k * unitsPerOne + 2 ^ s' ≤ t' * 2 ^ s' := by
    rw [hi] at hle ⊢
    have hless : y * k * i * 2 ^ s' < t' * 2 ^ s' := by
      calc y * k * i * 2 ^ s' = y * k * (2 ^ s' * i) := by ring
        _ < t' * 2 ^ s' := hle
    calc y * k * (2 ^ s' * i) + 2 ^ s' = (y * k * i + 1) * 2 ^ s' := by ring
      _ ≤ t' * 2 ^ s' := Nat.mul_le_mul_right _ (Nat.lt_of_mul_lt_mul_right hless)
  have hs : s ≠ 0 := by
    rintro rfl
    have hU := Nat.mul_le_mul hkpos two_pow_le_unitsPerOne
    have := ht.lt
    rw [← hunits, pow_zero] at hU
    omega
  -- and the middle above `k`, taken `y` times, is less than that distance away from it
  have hstep : y * 2 ^ s < 2 * 2 ^ s' := by
    refine Nat.lt_of_mul_lt_mul_right (a := fractionSize) ?_
    calc y * 2 ^ s * fractionSize = y * (fractionSize * 2 ^ s) := by ring
      _ ≤ y * (t * 2 ^ s) := Nat.mul_le_mul_left _ (Nat.mul_le_mul_right _ (ht.le hs))
      _ = y * k * unitsPerOne := by rw [hunits, Nat.mul_assoc]
      _ < t' * 2 ^ s' := hle
      _ ≤ 2 * fractionSize * 2 ^ s' := Nat.mul_le_mul_right _ ht'.lt.le
      _ = 2 * 2 ^ s' * fractionSize := by ring
  calc (2 * t + 1) * (y * unitsPerOne * 2 ^ s)
      = (2 * y * (t * 2 ^ s) + y * 2 ^ s) * unitsPerOne := by ring
    _ = (2 * (y * k * unitsPerOne) + y * 2 ^ s) * unitsPerOne := by
        rw [hunits]
        ring
    _ < (2 * (y * k * unitsPerOne) + 2 * 2 ^ s') * unitsPerOne :=
        Nat.mul_lt_mul_of_pos_right (Nat.add_lt_add_left hstep _) unitsPerOne_pos
    _ = 2 * (y * k * unitsPerOne + 2 ^ s') * unitsPerOne := by ring
    _ ≤ 2 * (t' * 2 ^ s' * unitsPerOne) := by
        rw [← Nat.mul_assoc]
        exact Nat.mul_le_mul_right _ (Nat.mul_le_mul_left _ hnext)

/-- If the rounded quotient of `a` and `y` is at most `k` then `k` times `y` is at least `a`. -/
theorem le_mul_of_div_le {a y k : Nat} (ha : a < 2 ^ 53) (hy : y < 2 ^ 53) (hk : k < 2 ^ 53)
    (hypos : 0 < y) (hkpos : 0 < k) (h : (ofNat a / ofNat y).amount ≤ k * unitsPerOne) :
    (ofNat a).amount ≤ (ofNat y * ofNat k).amount := by
  have hlt : (ofNat a).amount < 2 ^ 53 * unitsPerOne := by
    rw [amount_ofNat ha]
    exact Nat.mul_lt_mul_of_pos_right ha unitsPerOne_pos
  have hle := le_mul_of_div_ofNat_le (isAmount_ofNat a) hlt hypos hy hk hkpos h
  rw [amount_mul_ofNat (isAmount_ofNat y) hkpos hk, amount_ofNat hy, Nat.mul_right_comm]
  exact (isAmount_ofNat a).nearest_eq.ge.trans (nearest_one_mono hle)

end Muster.Double
