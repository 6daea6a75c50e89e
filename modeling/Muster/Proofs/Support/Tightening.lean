import Muster.Proofs.Property.Bounds
import Muster.Proofs.Property.Factor
import Muster.Proofs.Support.Saturation

/-!
Tighter constraints. A resource with more constraints asks for at least as many instances of a
model, or the model cannot meet them by any number and is left out. The factor of the looser one is
only ever raised to the least that some property asks for, and the factor of the tighter one, which
was confirmed, is not below that of any property; which properties are new, tighter or looked at
first does not matter. A rounded product may reach a limit that the quotient, rounded as well, asks
a higher factor for, so both have to compare with the limit as exact numbers do.

Main statements: `scalingFactor_le_of_sublist`, `saturationAt_of_sublist`,
`saturationBound_withConstraint`.
-/

namespace Muster

namespace Double

/-- Whether a double is at most so many units; negative infinity is below all numbers. -/
def AtMostUnits (x : Double) (u : Int) : Prop :=
  x = negInfinity ∨ x.isFinite = true ∧ x.units ≤ u

theorem AtMostUnits.mono {x : Double} {u u' : Int} (h : x.AtMostUnits u) (hle : u ≤ u') :
    x.AtMostUnits u' :=
  h.imp_right (And.imp_right fun hunits => hunits.trans hle)

/-- Whether the multiples of a value, and the quotient of a limit and the value, rounded up, compare
with the limit as those of exact numbers do. -/
structure ComparesExactly (v limit : Double) : Prop where
  product : ∀ k : Nat, 0 < k → k ≤ countLimit →
    (limit ≤ .ofNat k * v ↔ limit.AtMostUnits (k * v.units))
  quotient : ¬ limit.AtMostUnits v.units → ∀ k : Nat, 0 < k → k ≤ countLimit →
    ((limit / v).ceil ≤ .ofNat k ↔ limit.AtMostUnits (k * v.units))

/-- A positive value of which some multiple falls short of something is finite. -/
theorem isFinite_of_mul_lt {v limit : Double} {k : Nat} (hv : 0 < v) (hk : 0 < k)
    (h : ofNat k * v < limit) : v.isFinite = true := by
  obtain ⟨⟨-, hnumber⟩, -⟩ := lt_iff_and.1 hv
  obtain ⟨⟨-, hlimit⟩, -⟩ := lt_iff_and.1 h
  rcases hnumber.eq_infinity_or with rfl | rfl | hfin
  · exact absurd (negInfinity_le isNumber_zero) (Double.not_le_of_lt hv)
  · rw [ofNat_mul_infinity hk] at h
    exact absurd (le_infinity hlimit) (Double.not_le_of_lt h)
  · exact hfin

theorem IsWhole.atMostUnits_iff {x limit : Double} {a : Int} (hx : x.IsWhole a) (k : Nat) :
    limit.AtMostUnits (k * x.units) ↔ limit.AtMost (k * a) := by
  rw [hx.units_eq, ← Int.mul_assoc]
  rfl

end Double

namespace Pool

variable {o : Ontology} {r r' : Resource} {pool : Pool} {factor factor' : Double}
  {checks checks' : List Check} {c : Check} {v : Double} {b : ValueBound} {j n : Nat}

theorem ofNat_le_ofNat_iff (hn : n ≤ countLimit) : Double.ofNat j ≤ .ofNat n ↔ j ≤ n := by
  have hlimit : countLimit + 1 < 2 ^ 53 := by decide
  exact Double.ofNat_le_ofNat_iff (by omega)

/-- Small whole values compare exactly. -/
theorem IsExact.comparesExactly (h : IsExact v b) (hmin : b.min.IsNumber) (hv : 0 < v) :
    v.ComparesExactly b.min where
  product k _ hk := by
    have hlimit : countLimit < 2 ^ 53 := by decide
    have hlt : k < 2 ^ 53 := hk.trans_lt hlimit
    rw [Double.le_mul_iff_atMost (Double.isWhole_ofNat hlt) h.isWhole hlt h.whole_lt hmin
      h.min_small, h.isWhole.atMostUnits_iff]
  quotient hnot k _ hk := by
    have hpos : 0 < v.whole := by
      have hle : ¬ v ≤ 0 := Double.not_le_of_lt hv
      rwa [h.isWhole.le_zero_iff, Int.not_le] at hle
    have hnot' : ¬ b.min.AtMost ((1 : Nat) * v.whole) := by
      rwa [← h.isWhole.atMostUnits_iff, Nat.cast_one, Int.one_mul]
    obtain ⟨q, hceil, -, -, hleast⟩ := Double.exists_ceil_div_eq hmin h.min_ne h.min_small h.isWhole
      hpos h.whole_lt Nat.one_pos hnot'
    rw [hceil, ofNat_le_ofNat_iff hk, hleast, h.isWhole.atMostUnits_iff]

/-- Whether each value of a pool, if it is finite and positive, compares exactly with the lower end
of its bound. -/
def ScalesExactly (o : Ontology) (r : Resource) (pool : Pool) : Prop :=
  ∀ property ∈ r.properties, ∀ v b, pool.propertyValue o property = some v →
    ValueBound.merge property r.constraints = .ok b → v.isFinite = true → 0 < v →
    v.ComparesExactly b.min

theorem scalesExactly_of_isMeasured (h : ∀ property ∈ r.properties, IsMeasured o r pool property) :
    ScalesExactly o r pool := by
  intro property hproperty v b hv hb _ hpos
  obtain ⟨v', hv', hexact⟩ := h property hproperty
  obtain rfl := Option.some.inj (hv.symm.trans hv')
  have hmin : b.min.IsNumber := Double.isNumber_left (ValueBound.merge_le hb)
  exact (hexact b hb).comparesExactly hmin hpos

/-- Whether a factor lifts each value of a pool to the lower end of its bound. -/
def Lifts (o : Ontology) (r : Resource) (pool : Pool) (factor : Double) : Prop :=
  ∀ property ∈ r.properties, ∀ v b, pool.propertyValue o property = some v →
    ValueBound.merge property r.constraints = .ok b → b.min ≤ factor * v

/-! ### Factors of fewer constraints -/

section Below

variable (hj : 0 < j) (hjn : j ≤ n) (hn : n ≤ countLimit)
include hj hjn hn

/-- A factor is not raised above one that lifts the value to the lower end. -/
theorem raiseFactor_le (hlifts : c.bound.min ≤ .ofNat n * c.value)
    (hexact : c.value.isFinite = true → 0 < c.value → c.value.ComparesExactly c.bound.min)
    (h : raiseFactor r pool (.ofNat j) c = .ok factor) :
    ∃ k, 0 < k ∧ k ≤ n ∧ factor = .ofNat k := by
  rw [raiseFactor] at h
  split_ifs at h with hshort hvalue
  · obtain ⟨k, hk, hmax⟩ := Double.exists_max_ceil_eq_ofNat hj (c.bound.min / c.value)
    refine ⟨k, hk, ?_, (Except.ok.inj h).symm.trans hmax⟩
    have hnumber : c.value.IsNumber := Double.isNumber_of_mul (Double.isNumber_right hlifts)
    have hpos : 0 < c.value := hnumber.lt_of_not_le Double.isNumber_zero hvalue
    have hcompares := hexact (Double.isFinite_of_mul_lt hpos hj hshort) hpos
    have hunits : 0 < c.value.units := by
      rwa [hnumber.le_zero_iff, Int.not_le] at hvalue
    have habove : ¬ c.bound.min.AtMostUnits c.value.units := by
      intro hle
      refine Double.not_le_of_lt hshort ((hcompares.product j hj (hjn.trans hn)).2 (hle.mono ?_))
      exact le_mul_of_one_le_left hunits.le (Int.ofNat_le.2 hj)
    have hpositive : 0 < n := Nat.lt_of_lt_of_le hj hjn
    have hceil := (hcompares.quotient habove n hpositive hn).2
      ((hcompares.product n hpositive hn).1 hlifts)
    rw [← ofNat_le_ofNat_iff hn, ← hmax]
    exact Double.max_le (Double.ofNat_mono hjn) hceil
  · exact ⟨j, hj, hjn, (Except.ok.inj h).symm⟩

/-- What is gathered for some properties does not raise the factor above one that lifts them all. -/
theorem foldlM_gather_le (hlifts : Lifts o r pool (.ofNat n)) (hexact : ScalesExactly o r pool)
    {properties : List Model} (hproperties : ∀ property ∈ properties, property ∈ r.properties)
    (h : (properties.map (clusterOf r)).foldlM (gather o r pool) (.ofNat j, checks) =
      .ok (factor, checks')) : ∃ k, k ≤ n ∧ factor = .ofNat k := by
  -- on the properties; `n` is fixed and stays above whatever the factor is raised to
  induction properties generalizing j checks with
  | nil =>
    obtain ⟨rfl, -⟩ := Prod.mk.inj (Except.ok.inj h)
    exact ⟨j, hjn, rfl⟩
  | cons property rest ih =>
    obtain ⟨hproperty, hrest⟩ := List.forall_mem_cons.1 hproperties
    rw [List.map_cons, List.foldlM_cons] at h
    obtain ⟨state, hstate, hfold⟩ := exists_of_bind_eq_ok h
    obtain ⟨c, hcheck, hraise⟩ := exists_of_bind_eq_ok hstate
    obtain ⟨raised, hraised, hnext⟩ := exists_of_bind_eq_ok hraise
    obtain rfl := Except.ok.inj hnext
    obtain ⟨hv, hb⟩ := check_eq_ok hcheck
    rw [clusterOf, ValueBound.merge_filter] at hb
    obtain ⟨k, hk, hkn, rfl⟩ := raiseFactor_le hj hjn hn (hlifts property hproperty _ _ hv hb)
      (hexact property hproperty _ _ hv hb) hraised
    exact ih hk hkn hrest hfold

end Below

/-- What is confirmed for a resource lifts the values of the pool to the lower ends of a looser one.
-/
theorem lifts_of_sublist (hsub : r.constraints.Sublist r'.constraints)
    (h : scalingFactor o r' pool = .ok factor) : Lifts o r pool factor := by
  intro property hproperty v b hv hb
  obtain ⟨v', d, hv', hd, hcontains⟩ :=
    (scalingFactor_spec h).2 property (Resource.mem_properties_of_sublist hsub hproperty)
  obtain rfl := Option.some.inj (hv.symm.trans hv')
  obtain ⟨b', hb', hwithin⟩ := ValueBound.merge_of_sublist hsub hd
  obtain rfl := Except.ok.inj (hb.symm.trans hb')
  rw [ValueBound.contains, Bool.and_eq_true, decide_eq_true_iff] at hcontains
  exact Double.le_trans hwithin.min_le hcontains.1

/-- More constraints do not lower the factor, up to the largest count. -/
theorem scalingFactor_le_of_sublist (hsub : r.constraints.Sublist r'.constraints)
    (hexact : ScalesExactly o r pool) (h : scalingFactor o r pool = .ok (.ofNat j))
    (h' : scalingFactor o r' pool = .ok (.ofNat n)) (hn : 0 < n) : j ≤ n ∨ countLimit < n := by
  rcases Nat.lt_or_ge countLimit n with hlimit | hlimit
  · exact .inr hlimit
  left
  rw [scalingFactor] at h
  obtain ⟨⟨raised, checks⟩, hgather, hconfirm⟩ := exists_of_bind_eq_ok h
  obtain ⟨_, -, hfactor⟩ := exists_of_bind_eq_ok hconfirm
  obtain rfl := Except.ok.inj hfactor
  obtain ⟨k, hk, heq⟩ := foldlM_gather_le Nat.one_pos hn hlimit (lifts_of_sublist hsub h') hexact
    (fun _ hproperty => hproperty) hgather
  rw [← ofNat_le_ofNat_iff hlimit, heq]
  exact Double.ofNat_mono hk

end Pool

namespace Resource

open Pool (ScalesExactly scalingFactor)
open SupportVector (saturationOf_ok exists_saturationBound)

variable {o : Ontology} {r r' : Resource} {m : Model} {s s' t : UInt32}

/-! ### Saturation with fewer constraints -/

theorem toNat_raised {n : Nat} (hn : n ≤ countLimit) :
    (if t < .ofNat n then .ofNat n else t : UInt32).toNat = max t.toNat n := by
  have hlimit : countLimit < 2 ^ 32 := by decide
  have hsize : (UInt32.ofNat n).toNat = n := UInt32.toNat_ofNat_of_lt' (hn.trans_lt hlimit)
  split
  · rename_i hlt
    rw [UInt32.lt_iff_toNat_lt, hsize] at hlt
    rw [hsize, Nat.max_eq_right hlt.le]
  · rename_i hle
    rw [UInt32.lt_iff_toNat_lt, hsize] at hle
    rw [Nat.max_eq_left (Nat.not_lt.1 hle)]

/-- What can be used of a model: nothing if it provides nothing, or if it cannot meet the
constraints by any number; else as many as are needed and as many as meet the constraints. -/
theorem saturationAt_cases (ht : saturationOf o r.model m = .ok t)
    (hs : r.saturationAt o m = .ok s) :
    (t = 0 ∧ s = 0) ∨ t ≠ 0 ∧
      ((∃ k, 0 < k ∧ scalingFactor o r (.ofPairs [(m, 1)]) = .ok (.ofNat k) ∧
        s.toNat = max t.toNat (min k countLimit)) ∨
      (∃ e, scalingFactor o r (.ofPairs [(m, 1)]) = .error e) ∧ s = 0) := by
  have hlimit : countLimit < 2 ^ 53 := by decide
  rw [saturationAt, ht] at hs
  simp only [bind, Except.bind, pure, Except.pure] at hs
  by_cases hzero : t = 0
  · rw [if_neg (fun h => h.1 hzero)] at hs
    exact .inl ⟨hzero, hzero ▸ (Except.ok.inj hs).symm⟩
  refine .inr ⟨hzero, ?_⟩
  cases hconstraints : r.hasConstraints with
  | false =>
    -- without constraints the factor is one, which does not raise what is positive
    rw [hconstraints, if_neg (fun h => Bool.false_ne_true h.2)] at hs
    obtain rfl := Except.ok.inj hs
    have hnone : r.constraints = [] := by simpa [hasConstraints] using hconstraints
    have hone : min 1 countLimit ≤ t.toNat := (Nat.min_le_left ..).trans (Pool.toNat_pos hzero)
    refine .inl ⟨1, Nat.one_pos, Pool.scalingFactor_of_isEmpty hnone, ?_⟩
    exact (Nat.max_eq_left hone).symm
  | true =>
    rw [hconstraints, if_pos ⟨hzero, rfl⟩] at hs
    split at hs
    · rename_i factor hfactor
      obtain ⟨⟨k, hk, rfl⟩, -⟩ := Pool.scalingFactor_spec hfactor
      refine .inl ⟨k, hk, hfactor, ?_⟩
      rw [Double.toNatUpTo_ceil_ofNat hlimit] at hs
      rw [← Except.ok.inj hs]
      exact toNat_raised (Nat.min_le_right ..)
    · rename_i e hfactor
      exact .inr ⟨⟨e, hfactor⟩, (Except.ok.inj hs).symm⟩

/-- With more constraints, as many instances at least can be used of a model, or none. If there were
some, they cannot meet the constraints by any number. -/
theorem saturationAt_of_sublist (hmodel : r'.model = r.model)
    (hsub : r.constraints.Sublist r'.constraints) (hs : r.saturationAt o m = .ok s)
    (hs' : r'.saturationAt o m = .ok s') :
    (ScalesExactly o r (.ofPairs [(m, 1)]) → s ≤ s' ∨ s' = 0) ∧
      (0 < s → s' = 0 → ∃ e, scalingFactor o r' (.ofPairs [(m, 1)]) = .error e) := by
  obtain ⟨t, ht⟩ := saturationOf_ok o r.model m
  have hcases := saturationAt_cases ht hs
  rcases saturationAt_cases (hmodel ▸ ht : saturationOf o r'.model m = .ok t) hs' with
    ⟨rfl, rfl⟩ | ⟨hpos, ⟨n, hn, hfactor', hcount'⟩ | ⟨hfails, rfl⟩⟩
  · refine ⟨fun _ => .inr rfl, fun hsome _ => ?_⟩
    obtain ⟨-, rfl⟩ := hcases.resolve_right fun h => h.1 rfl
    exact absurd hsome (UInt32.lt_irrefl 0)
  · refine ⟨fun hexact => .inl ?_, fun _ hnone => ?_⟩
    · obtain ⟨-, ⟨k, -, hfactor, hcount⟩ | ⟨-, rfl⟩⟩ := hcases.resolve_left fun h => hpos h.1
      · have hle := Pool.scalingFactor_le_of_sublist hsub hexact hfactor hfactor' hn
        have hmin : min k countLimit ≤ min n countLimit := by omega
        rw [UInt32.le_iff_toNat_le, hcount, hcount']
        exact max_le_max_left _ hmin
      · exact UInt32.le_iff_toNat_le.2 (Nat.zero_le _)
    · have hsome := Pool.toNat_pos hpos
      rw [hnone, UInt32.toNat_zero] at hcount'
      omega
  · exact ⟨fun _ => .inr rfl, fun _ _ => hfails⟩

theorem sublist_withConstraint (r : Resource) (c : PropertyConstraint) :
    r.constraints.Sublist (r.withConstraint c).constraints := sublist_place c r.constraints

/-- With one more constraint the bound is not lower for any model of the pool, or the model is left
out. It is left out, if it was not before, only if it cannot meet the constraints by any number. -/
theorem saturationBound_withConstraint {base : Pool} (hbase : base.isEmpty = false) (o : Ontology)
    (r : Resource) (c : PropertyConstraint) :
    ∃ b b', r.saturationBound o base = .ok b ∧ (r.withConstraint c).saturationBound o base = .ok b' ∧
      ∀ m ∈ base.models,
        (ScalesExactly o r (.ofPairs [(m, 1)]) → b.count m ≤ b'.count m ∨ b'.count m = 0) ∧
        (0 < b.count m → b'.count m = 0 →
          ∃ e, scalingFactor o (r.withConstraint c) (.ofPairs [(m, 1)]) = .error e) := by
  obtain ⟨b, hb, hcount⟩ := exists_saturationBound hbase o r
  obtain ⟨b', hb', hcount'⟩ := exists_saturationBound hbase o (r.withConstraint c)
  refine ⟨b, b', hb, hb', fun m hm => ?_⟩
  exact saturationAt_of_sublist rfl (sublist_withConstraint r c) (hcount m hm) (hcount' m hm)

theorem count_of_saturationBound {base b : Pool} (hb : r.saturationBound o base = .ok b)
    (h : (r.saturationBound o base).toOption.map (fun b => b.count m) = some t) :
    b.count m = t := by
  rw [hb] at h
  exact Option.some.inj h

/-- A sherpa has two cameras and carries so many units. To see takes five cameras. -/
def seeingSherpas (payload : Double) : CatalogDraft :=
  ((({} : CatalogDraft).has ⟨"See"⟩ ⟨"Camera"⟩ 5 5).has ⟨"Sherpa"⟩ ⟨"Camera"⟩ 0 2).dataValue
    ⟨"Sherpa"⟩ ⟨"payload"⟩ payload

/-- To see, and to carry so many units at least. -/
def seeing (payload : Double) : Resource :=
  .ofConstraints ⟨"See"⟩ [⟨⟨"payload"⟩, .greaterOrEqual, payload⟩]

/-- Three sherpas see what there is. Four are needed if they have to carry sixteen units, and none
is of use if they have to carry one at most. -/
theorem saturationBound_withConstraint_seeing :
    (∃ b b', (seeing 2).saturationBound (seeingSherpas 4).build.ontology Pool.oneSherpa = .ok b ∧
      ((seeing 2).withConstraint ⟨⟨"payload"⟩, .greaterOrEqual, 16⟩).saturationBound
        (seeingSherpas 4).build.ontology Pool.oneSherpa = .ok b' ∧
      b.count ⟨"Sherpa"⟩ = 3 ∧ b'.count ⟨"Sherpa"⟩ = 4 ∧
      b.count ⟨"Sherpa"⟩ ≤ b'.count ⟨"Sherpa"⟩) ∧
    ∃ e, scalingFactor (seeingSherpas 4).build.ontology
      ((seeing 2).withConstraint ⟨⟨"payload"⟩, .lessOrEqual, 1⟩) Pool.oneSherpa = .error e := by
  have hbase : Pool.oneSherpa.isEmpty = false := by decide +kernel
  have hsherpa : (⟨"Sherpa"⟩ : Model) ∈ Pool.oneSherpa.models := by decide +kernel
  have hmeasured : ∀ property ∈ (seeing 2).properties.toList, Pool.Poses
      (seeingSherpas 4).build.ontology (seeing 2) Pool.oneSherpa property Pool.IsExact := by
    decide +kernel
  have hexact : ScalesExactly (seeingSherpas 4).build.ontology (seeing 2) Pool.oneSherpa :=
    Pool.scalesExactly_of_isMeasured fun property h => (hmeasured property h).isMeasured
  constructor
  · obtain ⟨b, b', hb, hb', hall⟩ := saturationBound_withConstraint hbase
      (seeingSherpas 4).build.ontology (seeing 2) ⟨⟨"payload"⟩, .greaterOrEqual, 16⟩
    have hthree : b.count ⟨"Sherpa"⟩ = 3 := count_of_saturationBound hb (by decide +kernel)
    have hfour : b'.count ⟨"Sherpa"⟩ = 4 := count_of_saturationBound hb' (by decide +kernel)
    refine ⟨b, b', hb, hb', hthree, hfour, ((hall _ hsherpa).1 hexact).resolve_right ?_⟩
    rw [hfour]
    decide
  · obtain ⟨b, b', hb, hb', hall⟩ := saturationBound_withConstraint hbase
      (seeingSherpas 4).build.ontology (seeing 2) ⟨⟨"payload"⟩, .lessOrEqual, 1⟩
    have hthree : b.count ⟨"Sherpa"⟩ = 3 := count_of_saturationBound hb (by decide +kernel)
    have hnone : b'.count ⟨"Sherpa"⟩ = 0 := count_of_saturationBound hb' (by decide +kernel)
    exact (hall _ hsherpa).2 (hthree ▸ by decide) hnone

/-- The double nearest to one tenth. -/
def tenth : Double := ⟨0x3FB999999999999A⟩

/-- Rounding lowers a bound. The load of three sherpas that carry a tenth each is a little more than
three tenths, as a double; divided by a tenth it is a little more than three, as a double. So four
sherpas are asked for, unless another constraint asked for three before. -/
theorem saturationBound_lowered_by_rounding : ∃ b b',
    (seeing (3 * tenth)).saturationBound
      ((seeingSherpas tenth).dataValue ⟨"Sherpa"⟩ ⟨"charge"⟩ 1).build.ontology Pool.oneSherpa =
        .ok b ∧
    ((seeing (3 * tenth)).withConstraint ⟨⟨"charge"⟩, .greaterOrEqual, 3⟩).saturationBound
      ((seeingSherpas tenth).dataValue ⟨"Sherpa"⟩ ⟨"charge"⟩ 1).build.ontology Pool.oneSherpa =
        .ok b' ∧
    b.count ⟨"Sherpa"⟩ = 4 ∧ b'.count ⟨"Sherpa"⟩ = 3 := by
  have hbase : Pool.oneSherpa.isEmpty = false := by decide +kernel
  obtain ⟨b, hb, -⟩ := exists_saturationBound hbase
    ((seeingSherpas tenth).dataValue ⟨"Sherpa"⟩ ⟨"charge"⟩ 1).build.ontology (seeing (3 * tenth))
  obtain ⟨b', hb', -⟩ := exists_saturationBound hbase
    ((seeingSherpas tenth).dataValue ⟨"Sherpa"⟩ ⟨"charge"⟩ 1).build.ontology
    ((seeing (3 * tenth)).withConstraint ⟨⟨"charge"⟩, .greaterOrEqual, 3⟩)
  exact ⟨b, b', hb, hb', count_of_saturationBound hb (by decide +kernel),
    count_of_saturationBound hb' (by decide +kernel)⟩

end Resource
end Muster
