import Muster.Catalog
import Muster.Proofs.Property.Merging

/-!
The least factor. How often a pool is taken is decided in two passes: the first raises a factor
until every property reaches the lower end of its bound, the second checks the upper ends. Each
raise is as small as it can be, so no lower number of times reaches all lower ends, and if the
factor is confirmed it is the least one that is right. If it is not, then no number of times is
right as long as no value is negative: a value that is too large only grows. A negative one shrinks,
so a larger number of times may still be right, but none is tried.

Main statements: `raiseFactor_cases`, `foldlM_gather_cases`, `forM_confirm_cases`,
`scalingFactor_cases`.
-/

namespace Muster

open Double (IsWhole)

theorem exists_mem_of_forall₂ {α β : Type} {r : α → β → Prop} {xs : List α} {ys : List β}
    (h : List.Forall₂ r xs ys) :
    (∀ x ∈ xs, ∃ y ∈ ys, r x y) ∧ ∀ y ∈ ys, ∃ x ∈ xs, r x y := by
  induction h with
  | nil => exact ⟨fun x hx => absurd hx List.not_mem_nil, fun y hy => absurd hy List.not_mem_nil⟩
  | cons hxy _ ih =>
    simp only [List.forall_mem_cons, List.exists_mem_cons_iff]
    exact ⟨⟨.inl hxy, fun x hx => .inr (ih.1 x hx)⟩, .inl hxy, fun y hy => .inr (ih.2 y hy)⟩

namespace ValueBound

/-- Whether a whole number lies within. -/
def Admits (b : ValueBound) (n : Int) : Prop := b.min.AtMost n ∧ b.max.AtLeast n

instance (b : ValueBound) (n : Int) : Decidable (b.Admits n) :=
  inferInstanceAs (Decidable (_ ∧ _))

theorem merge_filter (property : Model) (cs : List PropertyConstraint) :
    merge property (cs.filter (·.property == property)) = merge property cs := by
  rw [merge, merge, List.filter_filter]
  simp

end ValueBound

namespace Pool

variable {o : Ontology} {r : Resource} {pool : Pool} {property : Model} {k : Nat}

/-! ### Factors -/

/-- Whether a property has a value and a bound to meet that are as stated. -/
def Poses (o : Ontology) (r : Resource) (pool : Pool) (property : Model)
    (stated : Double → ValueBound → Prop) : Prop :=
  ∃ v b, pool.propertyValue o property = some v ∧ ValueBound.merge property r.constraints = .ok b ∧
    stated v b

theorem Poses.congr {stated : Double → ValueBound → Prop} {v : Double} {b : ValueBound}
    (h : Poses o r pool property stated) (hv : pool.propertyValue o property = some v)
    (hb : ValueBound.merge property r.constraints = .ok b) : stated v b := by
  obtain ⟨v', b', hv', hb', hstated⟩ := h
  obtain rfl := Option.some.inj (hv.symm.trans hv')
  obtain rfl := Except.ok.inj (hb.symm.trans hb')
  exact hstated

instance (stated : Double → ValueBound → Prop) [∀ v b, Decidable (stated v b)] :
    Decidable (Poses o r pool property stated) :=
  match hv : pool.propertyValue o property, hb : ValueBound.merge property r.constraints with
  | some v, .ok b => decidable_of_iff (stated v b)
      ⟨fun h => ⟨v, b, hv, hb, h⟩, fun h => h.congr hv hb⟩
  | none, _ => .isFalse fun ⟨_, _, hv', _⟩ => Option.some_ne_none _ (hv'.symm.trans hv)
  | some _, .error _ => .isFalse fun ⟨_, _, _, hb', _⟩ => nomatch hb'.symm.trans hb

/-- Whether so many times the pool reaches the lower end of the bound of a property. -/
def Reaches (o : Ontology) (r : Resource) (pool : Pool) (k : Nat) (property : Model) : Prop :=
  Poses o r pool property fun v b => b.min.AtMost (k * v.whole)

/-- Whether so many times the pool reaches all lower ends. -/
def ReachesAll (o : Ontology) (r : Resource) (pool : Pool) (k : Nat) : Prop :=
  0 < k ∧ ∀ property ∈ r.properties, Reaches o r pool k property

/-- Whether so many times the pool is within each bound. -/
def IsFactor (o : Ontology) (r : Resource) (pool : Pool) (k : Nat) : Prop :=
  0 < k ∧ ∀ property ∈ r.properties, Poses o r pool property fun v b => b.Admits (k * v.whole)

instance (k : Nat) : Decidable (ReachesAll o r pool k) :=
  inferInstanceAs (Decidable (0 < k ∧ ∀ property ∈ r.properties.toList, Poses ..))

instance (k : Nat) : Decidable (IsFactor o r pool k) :=
  inferInstanceAs (Decidable (0 < k ∧ ∀ property ∈ r.properties.toList, Poses ..))

/-- Whether so many times the pool leaves a negative value above the upper end of its bound. -/
def Overshoots (o : Ontology) (r : Resource) (pool : Pool) (k : Nat) : Prop :=
  ∃ property ∈ r.properties,
    Poses o r pool property fun v b => v.whole < 0 ∧ ¬ b.max.AtLeast (k * v.whole)

/-- Whether all multiples of a whole value can be compared exactly with the ends of a bound: all are
small enough, and the lower end is not infinity. -/
structure IsExact (v : Double) (b : ValueBound) : Prop where
  isWhole : v.IsWhole v.whole
  whole_lt : v.whole.natAbs < 2 ^ 53
  min_small : b.min.IsSmall
  max_small : b.max.IsSmall
  min_ne : b.min ≠ .infinity

instance (v : Double) (b : ValueBound) : Decidable (IsExact v b) :=
  decidable_of_iff (v.IsWhole v.whole ∧ v.whole.natAbs < 2 ^ 53 ∧ b.min.IsSmall ∧ b.max.IsSmall ∧
      b.min ≠ .infinity)
    ⟨fun ⟨hwhole, hlt, hmin, hmax, hne⟩ => ⟨hwhole, hlt, hmin, hmax, hne⟩,
      fun ⟨hwhole, hlt, hmin, hmax, hne⟩ => ⟨hwhole, hlt, hmin, hmax, hne⟩⟩

/-- Whether a property has a value, and its bound, if it has one, can be compared with it. -/
def IsMeasured (o : Ontology) (r : Resource) (pool : Pool) (property : Model) : Prop :=
  ∃ v, pool.propertyValue o property = some v ∧
    ∀ b, ValueBound.merge property r.constraints = .ok b → IsExact v b

theorem Poses.isMeasured (h : Poses o r pool property IsExact) : IsMeasured o r pool property := by
  obtain ⟨v, b, hv, hb, hexact⟩ := h
  refine ⟨v, hv, fun b' hb' => ?_⟩
  rwa [← Except.ok.inj (hb.symm.trans hb')]

/-! ### One property -/

/-- What is asked of a property is its value and its bound. Where one of them is missing nothing can
be met. -/
theorem check_cases (hvalue : ∃ v, pool.propertyValue o property = some v) :
    (∃ c, pool.propertyValue o property = some c.value ∧
      ValueBound.merge property r.constraints = .ok c.bound ∧
      pool.check o r property (r.constraints.filter (·.property == property)) = .ok c) ∨
    ((∃ reason, pool.check o r property (r.constraints.filter (·.property == property)) =
      .error (.unsatisfiable r.model pool reason)) ∧
      ∀ stated, ¬ Poses o r pool property stated) := by
  obtain ⟨v, hv⟩ := hvalue
  rw [check, hv, ValueBound.merge_filter]
  cases hb : ValueBound.merge property r.constraints with
  | ok b => exact .inl ⟨⟨property, v, b⟩, rfl, rfl, rfl⟩
  | error e =>
    refine .inr ⟨⟨_, rfl⟩, fun stated h => ?_⟩
    obtain ⟨_, _, _, hb', -⟩ := h
    rw [hb] at hb'
    exact absurd hb' (by simp)

section Raise

variable {c : Check} (hexact : IsExact c.value c.bound) (hle : c.bound.min ≤ c.bound.max)
  (hk : 0 < k) (hk' : k < 2 ^ 53)
include hexact hle hk'

theorem mul_lt_min_iff : .ofNat k * c.value < c.bound.min ↔
    ¬ c.bound.min.AtMost (k * c.value.whole) := by
  have hfactor : (Double.ofNat k).IsWhole k := Double.isWhole_ofNat hk'
  have hnumber : c.bound.min.IsNumber := Double.isNumber_left hle
  have hproduct : (Double.ofNat k * c.value).IsNumber := Double.isNumber_mul hfactor hexact.isWhole
  rw [hproduct.lt_iff hnumber, ← Int.not_le, ← hnumber.le_iff hproduct,
    Double.le_mul_iff_atMost hfactor hexact.isWhole hk' hexact.whole_lt hnumber hexact.min_small]

theorem contains_mul_iff : c.bound.contains (.ofNat k * c.value) = true ↔
    c.bound.Admits (k * c.value.whole) := by
  have hfactor : (Double.ofNat k).IsWhole k := Double.isWhole_ofNat hk'
  obtain ⟨⟨hmin, hmax⟩, -⟩ := Double.le_iff_and.1 hle
  rw [ValueBound.contains, Bool.and_eq_true, decide_eq_true_iff, decide_eq_true_iff,
    Double.le_mul_iff_atMost hfactor hexact.isWhole hk' hexact.whole_lt hmin hexact.min_small,
    Double.mul_le_iff_atLeast hfactor hexact.isWhole hk' hexact.whole_lt hmax hexact.max_small]
  rfl

/-- A factor is raised to the least one, not below it, that reaches the lower end, or there is none
because the end is out of reach. -/
theorem raiseFactor_cases (hk : 0 < k) (r : Resource) (pool : Pool) :
    (∃ n, raiseFactor r pool (.ofNat k) c = .ok (.ofNat n) ∧ k ≤ n ∧ n < 2 ^ 53 ∧
      c.bound.min.AtMost (n * c.value.whole) ∧
      ∀ j, k ≤ j → c.bound.min.AtMost (j * c.value.whole) → n ≤ j) ∨
    ((∃ reason, raiseFactor r pool (.ofNat k) c = .error (.unsatisfiable r.model pool reason)) ∧
      ∀ j, k ≤ j → ¬ c.bound.min.AtMost (j * c.value.whole)) := by
  have hnonpos : c.value ≤ 0 ↔ c.value.whole ≤ 0 := hexact.isWhole.le_zero_iff
  rw [raiseFactor]
  by_cases hreached : c.bound.min.AtMost (k * c.value.whole)
  · rw [if_neg (mt (mul_lt_min_iff hexact hle hk').1 (not_not_intro hreached))]
    exact .inl ⟨k, rfl, Nat.le_refl k, hk', hreached, fun j hj _ => hj⟩
  rw [if_pos ((mul_lt_min_iff hexact hle hk').2 hreached)]
  by_cases hvalue : c.value.whole ≤ 0
  · rw [if_pos (hnonpos.2 hvalue)]
    refine .inr ⟨⟨_, rfl⟩, fun j hj hreach => hreached (hreach.mono ?_)⟩
    exact Int.mul_le_mul_of_nonpos_right (Int.ofNat_le.2 hj) hvalue
  · rw [if_neg (mt hnonpos.1 hvalue)]
    obtain ⟨n, hceil, hlt, hn, hleast⟩ := Double.exists_ceil_div_eq (Double.isNumber_left hle)
      hexact.min_ne hexact.min_small hexact.isWhole (Int.not_le.1 hvalue) hexact.whole_lt hk
      hreached
    refine .inl ⟨n, ?_, hlt.le, hn, (hleast n).1 (Nat.le_refl n),
      fun j _ hreach => (hleast j).2 hreach⟩
    rw [hceil, Double.max_ofNat hlt.le]

end Raise

/-! ### All properties -/

/-- What is known of a check in the first pass: it states the value and the bound of a property, and
a value that is not negative reaches the lower end. A negative one may have fallen short of it
again, as the factor was raised for other properties. -/
structure IsGathered (o : Ontology) (r : Resource) (pool : Pool) (k : Nat) (property : Model)
    (c : Check) : Prop where
  value_eq : pool.propertyValue o property = some c.value
  bound_eq : ValueBound.merge property r.constraints = .ok c.bound
  isExact : IsExact c.value c.bound
  reaches : 0 ≤ c.value.whole → c.bound.min.AtMost (k * c.value.whole)

theorem IsGathered.mono {n : Nat} {c : Check} (h : IsGathered o r pool k property c) (hle : k ≤ n) :
    IsGathered o r pool n property c where
  value_eq := h.value_eq
  bound_eq := h.bound_eq
  isExact := h.isExact
  reaches hvalue := (h.reaches hvalue).mono
    (Int.mul_le_mul_of_nonneg_right (Int.ofNat_le.2 hle) hvalue)

/-- The constraints on a property, as they are asked for. -/
def clusterOf (r : Resource) (property : Model) : Model × List PropertyConstraint :=
  (property, r.constraints.filter (·.property == property))

theorem gather_of_check {c : Check} {state : Double × List Check}
    (h : pool.check o r property (r.constraints.filter (·.property == property)) = .ok c) :
    gather o r pool state (clusterOf r property) =
      (raiseFactor r pool state.1 c).map fun factor => (factor, state.2 ++ [c]) := by
  rw [gather, clusterOf, h]
  show (raiseFactor r pool state.1 c >>= fun factor => pure (factor, state.2 ++ [c])) = _
  cases raiseFactor r pool state.1 c <;> rfl

/-- A step of the first pass raises the factor to the least one, not below it, that reaches the
lower end for one more property, or fails because there is none. -/
theorem gather_cases (hmeasured : IsMeasured o r pool property) (hk : 0 < k) (hk' : k < 2 ^ 53)
    (checks : List Check) :
    (∃ n c, gather o r pool (.ofNat k, checks) (clusterOf r property) =
        .ok (.ofNat n, checks ++ [c]) ∧ k ≤ n ∧ n < 2 ^ 53 ∧ IsGathered o r pool n property c ∧
      ∀ j, k ≤ j → Reaches o r pool j property → n ≤ j) ∨
    ((∃ reason, gather o r pool (.ofNat k, checks) (clusterOf r property) =
        .error (.unsatisfiable r.model pool reason)) ∧
      ∀ j, k ≤ j → ¬ Reaches o r pool j property) := by
  obtain ⟨v, hv, hexact⟩ := hmeasured
  rcases check_cases (r := r) ⟨v, hv⟩ with ⟨c, hv', hb, hcheck⟩ | ⟨⟨reason, hcheck⟩, hnone⟩
  · obtain rfl := Option.some.inj (hv.symm.trans hv')
    rcases raiseFactor_cases (hexact c.bound hb) (ValueBound.merge_le hb) hk' hk r pool with
      ⟨n, hraise, hkn, hn, hreaches, hleast⟩ | ⟨⟨reason, hraise⟩, hfail⟩
    · refine .inl ⟨n, c, ?_, hkn, hn, ⟨hv, hb, hexact c.bound hb, fun _ => hreaches⟩,
        fun j hj hreach => hleast j hj (hreach.congr hv hb)⟩
      rw [gather_of_check hcheck, hraise]
      rfl
    · refine .inr ⟨⟨reason, ?_⟩, fun j hj hreach => hfail j hj (hreach.congr hv hb)⟩
      rw [gather_of_check hcheck, hraise]
      rfl
  · refine .inr ⟨⟨reason, ?_⟩, fun j _ hreach => hnone _ hreach⟩
    rw [gather, clusterOf, hcheck]
    rfl

/-- The first pass ends with a factor that reaches the lower end for each value that is not
negative, and no lower factor reaches all lower ends. If it fails then no factor does. -/
theorem foldlM_gather_cases {properties : List Model}
    (hmeasured : ∀ property ∈ properties, IsMeasured o r pool property) (hk : 0 < k)
    (hk' : k < 2 ^ 53) (checks : List Check) :
    (∃ n cs, (properties.map (clusterOf r)).foldlM (gather o r pool) (.ofNat k, checks) =
        .ok (.ofNat n, checks ++ cs) ∧ k ≤ n ∧ n < 2 ^ 53 ∧
      List.Forall₂ (IsGathered o r pool n) properties cs ∧
      ∀ j, k ≤ j → (∀ property ∈ properties, Reaches o r pool j property) → n ≤ j) ∨
    ((∃ reason, (properties.map (clusterOf r)).foldlM (gather o r pool) (.ofNat k, checks) =
        .error (.unsatisfiable r.model pool reason)) ∧
      ∀ j, k ≤ j → ¬ ∀ property ∈ properties, Reaches o r pool j property) := by
  induction properties generalizing k checks with
  | nil =>
    refine .inl ⟨k, [], ?_, Nat.le_refl k, hk', .nil, fun j hj _ => hj⟩
    rw [List.append_nil]
    rfl
  | cons property rest ih =>
    obtain ⟨hproperty, hrest⟩ := List.forall_mem_cons.1 hmeasured
    rw [List.map_cons, List.foldlM_cons]
    rcases gather_cases hproperty hk hk' checks with ⟨n, c, hgather, hkn, hn, hc, hleast⟩ |
      ⟨⟨reason, hgather⟩, hfail⟩
    · rw [hgather]
      rcases ih hrest (Nat.lt_of_lt_of_le hk hkn) hn (checks ++ [c]) with
        ⟨n', cs, hfold, hnn, hn', hcs, hleast'⟩ | ⟨⟨reason, hfold⟩, hfail⟩
      · refine .inl ⟨n', c :: cs, ?_, hkn.trans hnn, hn', .cons (hc.mono hnn) hcs,
          fun j hj hall => ?_⟩
        · rw [List.append_cons checks c cs]
          exact hfold
        · obtain ⟨hreach, hall⟩ := List.forall_mem_cons.1 hall
          exact hleast' j (hleast j hj hreach) hall
      · refine .inr ⟨⟨reason, hfold⟩, fun j hj hall => ?_⟩
        obtain ⟨hreach, hall⟩ := List.forall_mem_cons.1 hall
        exact hfail j (hleast j hj hreach) hall
    · rw [hgather]
      refine .inr ⟨⟨reason, rfl⟩, fun j hj hall => ?_⟩
      exact hfail j hj (hall property List.mem_cons_self)

/-- The second pass confirms a factor for all checks, or fails at one. -/
theorem forM_confirm_cases (r : Resource) (pool : Pool) (factor : Double) : ∀ checks : List Check,
    (checks.forM (confirm r pool factor) = .ok () ∧
      ∀ c ∈ checks, c.bound.contains (factor * c.value) = true) ∨
    ((∃ reason, checks.forM (confirm r pool factor) =
        .error (.unsatisfiable r.model pool reason)) ∧
      ∃ c ∈ checks, ¬ c.bound.contains (factor * c.value) = true)
  | [] => .inl ⟨rfl, fun c hc => absurd hc List.not_mem_nil⟩
  | c :: rest => by
    by_cases hc : c.bound.contains (factor * c.value) = true
    · have hconfirm : confirm r pool factor c = .ok () := if_pos hc
      have hforM : (c :: rest).forM (confirm r pool factor) =
          rest.forM (confirm r pool factor) := by
        show (confirm r pool factor c >>= fun _ => rest.forM (confirm r pool factor)) = _
        rw [hconfirm]
        rfl
      rw [hforM]
      refine (forM_confirm_cases r pool factor rest).imp ?_ ?_
      · rintro ⟨hok, hall⟩
        exact ⟨hok, List.forall_mem_cons.2 ⟨hc, hall⟩⟩
      · rintro ⟨hfail, d, hd, hnot⟩
        exact ⟨hfail, d, List.mem_cons_of_mem c hd, hnot⟩
    · obtain ⟨reason, hconfirm⟩ : ∃ reason, confirm r pool factor c =
          .error (.unsatisfiable r.model pool reason) := ⟨_, if_neg hc⟩
      refine .inr ⟨⟨reason, ?_⟩, c, List.mem_cons_self, hc⟩
      show (confirm r pool factor c >>= fun _ => rest.forM (confirm r pool factor)) = _
      rw [hconfirm]
      rfl

/-! ### The factor of a pool -/

theorem IsFactor.reachesAll (h : IsFactor o r pool k) : ReachesAll o r pool k := by
  refine ⟨h.1, fun property hproperty => ?_⟩
  obtain ⟨v, b, hv, hb, hadmits⟩ := h.2 property hproperty
  exact ⟨v, b, hv, hb, hadmits.1⟩

/-- A factor that reaches the lower ends for all values that are not negative reaches them all if a
larger one does: taken less often, a negative value is no lower. -/
theorem reachesAll_of_isGathered {n j : Nat} (hn : 0 < n) (hle : n ≤ j)
    (hgathered : ∀ property ∈ r.properties, ∃ c, IsGathered o r pool n property c)
    (hj : ReachesAll o r pool j) : ReachesAll o r pool n := by
  refine ⟨hn, fun property hproperty => ?_⟩
  obtain ⟨c, hc⟩ := hgathered property hproperty
  refine ⟨c.value, c.bound, hc.value_eq, hc.bound_eq, ?_⟩
  rcases Int.le_total 0 c.value.whole with hvalue | hvalue
  · exact hc.reaches hvalue
  · have hreach := (hj.2 property hproperty).congr hc.value_eq hc.bound_eq
    exact hreach.mono (Int.mul_le_mul_of_nonpos_right (Int.ofNat_le.2 hle) hvalue)

theorem IsGathered.contains_iff {n : Nat} {c : Check} (h : IsGathered o r pool n property c)
    (hn : n < 2 ^ 53) : c.bound.contains (.ofNat n * c.value) = true ↔
      c.bound.Admits (n * c.value.whole) :=
  contains_mul_iff h.isExact (ValueBound.merge_le h.bound_eq) hn

/-- If the least number of times that reaches all lower ends is not within some bound but a larger
one is, then a value above an upper end is negative. -/
theorem overshoots_of_not_admits {n j : Nat} {c : Check} (hle : n ≤ j)
    (hproperty : property ∈ r.properties) (hc : IsGathered o r pool n property c)
    (hn : ReachesAll o r pool n) (hnot : ¬ c.bound.Admits (n * c.value.whole))
    (hj : IsFactor o r pool j) : n < j ∧ Overshoots o r pool n := by
  have hadmits := (hj.2 property hproperty).congr hc.value_eq hc.bound_eq
  have hreach := (hn.2 property hproperty).congr hc.value_eq hc.bound_eq
  have habove : ¬ c.bound.max.AtLeast (n * c.value.whole) := fun h => hnot ⟨hreach, h⟩
  have hne : n ≠ j := by
    rintro rfl
    exact hnot hadmits
  refine ⟨Nat.lt_of_le_of_ne hle hne, property, hproperty, c.value, c.bound, hc.value_eq,
    hc.bound_eq, ?_, habove⟩
  by_contra hvalue
  refine habove (hadmits.2.mono ?_)
  exact Int.mul_le_mul_of_nonneg_right (Int.ofNat_le.2 hle) (Int.not_lt.1 hvalue)

/-- The factor that is found is the least number of times that is within all bounds. If there is
none, then the least number of times that reaches all lower ends leaves a negative value above its
upper end, or no number of times is within all bounds. -/
theorem scalingFactor_cases (hmeasured : ∀ property ∈ r.properties, IsMeasured o r pool property) :
    (∃ k, k < 2 ^ 53 ∧ scalingFactor o r pool = .ok (.ofNat k) ∧
      IsLeast {k | ReachesAll o r pool k} k ∧ IsLeast {k | IsFactor o r pool k} k) ∨
    ((∃ reason, scalingFactor o r pool = .error (.unsatisfiable r.model pool reason)) ∧
      ∀ k, IsFactor o r pool k →
        ∃ j < k, IsLeast {j | ReachesAll o r pool j} j ∧ Overshoots o r pool j) := by
  have hclusters : r.clusters = r.properties.toList.map (clusterOf r) := rfl
  have hone : (1 : Double) = .ofNat 1 := rfl
  rw [scalingFactor, hclusters, hone]
  rcases foldlM_gather_cases hmeasured Nat.one_pos (by decide) [] with
    ⟨n, cs, hfold, hn, hn', hcs, hleast⟩ | ⟨⟨reason, hfold⟩, hfail⟩
  · obtain ⟨hchecks, hproperties⟩ := exists_mem_of_forall₂ hcs
    have hbelow : ∀ j, ReachesAll o r pool j → n ≤ j := fun j hj => hleast j hj.1 hj.2
    rw [hfold]
    rcases forM_confirm_cases r pool (.ofNat n) cs with
      ⟨hconfirm, hall⟩ | ⟨⟨reason, hconfirm⟩, c, hc, hnot⟩
    · have hfactor : IsFactor o r pool n := by
        refine ⟨hn, fun property hproperty => ?_⟩
        obtain ⟨c, hc, hgathered⟩ := hchecks property hproperty
        exact ⟨c.value, c.bound, hgathered.value_eq, hgathered.bound_eq,
          (hgathered.contains_iff hn').1 (hall c hc)⟩
      refine .inl ⟨n, hn', ?_, ⟨hfactor.reachesAll, hbelow⟩, hfactor,
        fun j hj => hbelow j hj.reachesAll⟩
      show (cs.forM (confirm r pool (.ofNat n)) >>= fun _ => pure (Double.ofNat n)) = _
      rw [hconfirm]
      rfl
    · refine .inr ⟨⟨reason, ?_⟩, fun j hj => ?_⟩
      · show (cs.forM (confirm r pool (.ofNat n)) >>= fun _ => pure (Double.ofNat n)) = _
        rw [hconfirm]
        rfl
      · have hle := hbelow j hj.reachesAll
        have hreaches : ReachesAll o r pool n := reachesAll_of_isGathered hn hle
          (fun property hproperty => (hchecks property hproperty).imp fun _ h => h.2) hj.reachesAll
        obtain ⟨property, hproperty, hgathered⟩ := hproperties c hc
        obtain ⟨hlt, hover⟩ := overshoots_of_not_admits hle hproperty hgathered hreaches
          (mt (hgathered.contains_iff hn').2 hnot) hj
        exact ⟨n, hlt, ⟨hreaches, hbelow⟩, hover⟩
  · refine .inr ⟨⟨reason, by rw [hfold]; rfl⟩, fun k hfactor => ?_⟩
    exact absurd hfactor.reachesAll.2 (hfail k hfactor.1)

/-- A sherpa carries four units and uses up two of charge. -/
def chargedSherpas : CatalogDraft :=
  (({} : CatalogDraft).dataValue ⟨"Sherpa"⟩ ⟨"payload"⟩ 4).dataValue ⟨"Sherpa"⟩ ⟨"charge"⟩ (-2)

/-- One sherpa. -/
def oneSherpa : Pool := .ofPairs [(⟨"Sherpa"⟩, 1)]

/-- To carry nine units at least with six units of charge. -/
def carryingOnCharge : Resource := .ofConstraints ⟨"Carry"⟩
  [⟨⟨"payload"⟩, .greaterOrEqual, 9⟩, ⟨⟨"charge"⟩, .greaterOrEqual, -6⟩]

/-- To use up six units of charge at least. -/
def discharging : Resource := .ofConstraints ⟨"Discharge"⟩ [⟨⟨"charge"⟩, .lessOrEqual, -6⟩]

/-- To carry an unlimited load. -/
def carryingAnything : Resource :=
  .ofConstraints ⟨"Carry"⟩ [⟨⟨"payload"⟩, .greaterOrEqual, .infinity⟩]

/-- Three sherpas carry nine units with six units of charge, and fewer do not. -/
theorem scalingFactor_cases_sherpas :
    scalingFactor chargedSherpas.build.ontology carryingOnCharge oneSherpa = .ok (.ofNat 3) ∧
      IsLeast {k | IsFactor chargedSherpas.build.ontology carryingOnCharge oneSherpa k} 3 := by
  have hmeasured : ∀ property ∈ carryingOnCharge.properties.toList,
      Poses chargedSherpas.build.ontology carryingOnCharge oneSherpa property IsExact := by
    decide +kernel
  have hthree : IsFactor chargedSherpas.build.ontology carryingOnCharge oneSherpa 3 := by
    decide +kernel
  have hfew : ∀ k < 3, ¬ ReachesAll chargedSherpas.build.ontology carryingOnCharge oneSherpa k := by
    decide +kernel
  rcases scalingFactor_cases fun property h => (hmeasured property h).isMeasured with
    ⟨k, -, hok, hreaches, hleast⟩ | ⟨-, hnone⟩
  · obtain rfl : k = 3 := Nat.le_antisymm (hleast.2 hthree)
      (Nat.le_of_not_lt fun hlt => hfew k hlt hreaches.1)
    exact ⟨hok, hleast⟩
  · obtain ⟨j, hlt, hreaches, -⟩ := hnone 3 hthree
    exact absurd hreaches.1 (hfew j hlt)

/-- Three sherpas use up six units of charge, and fewer do not, but no factor is found. However many
there are, their load is not unlimited, but a factor is found that is not finite. -/
theorem scalingFactor_discharging :
    (IsLeast {k | IsFactor chargedSherpas.build.ontology discharging oneSherpa k} 3 ∧
      ∀ factor, scalingFactor chargedSherpas.build.ontology discharging oneSherpa ≠ .ok factor) ∧
    (∀ k, ¬ IsFactor chargedSherpas.build.ontology carryingAnything oneSherpa k) ∧
      scalingFactor chargedSherpas.build.ontology carryingAnything oneSherpa = .ok .infinity := by
  have hthree : IsFactor chargedSherpas.build.ontology discharging oneSherpa 3 := by decide +kernel
  have hfew : ∀ k < 3, ¬ IsFactor chargedSherpas.build.ontology discharging oneSherpa k := by
    decide +kernel
  have hnone : (scalingFactor chargedSherpas.build.ontology discharging oneSherpa).toOption =
      none := by decide +kernel
  have hunlimited : ∀ property ∈ carryingAnything.properties.toList, Poses
      chargedSherpas.build.ontology carryingAnything oneSherpa property
      fun _ b => b.min = .infinity := by decide +kernel
  have hfound : (scalingFactor chargedSherpas.build.ontology carryingAnything oneSherpa).toOption =
      some .infinity := by decide +kernel
  refine ⟨⟨⟨hthree, fun k hk => Nat.le_of_not_lt fun hlt => hfew k hlt hk⟩, fun factor h => ?_⟩,
    fun k hk => ?_, ?_⟩
  · rw [h] at hnone
    exact absurd hnone (by simp [Except.toOption])
  · have hmem : (⟨"payload"⟩ : Model) ∈ carryingAnything.properties := by decide +kernel
    obtain ⟨v, b, hv, hb, hmin⟩ := hunlimited _ hmem
    have hadmits := (hk.2 _ hmem).congr hv hb
    exact Double.not_atMost_infinity _ (hmin ▸ hadmits.1)
  · cases h : scalingFactor chargedSherpas.build.ontology carryingAnything oneSherpa with
    | error e =>
      rw [h] at hfound
      exact absurd hfound (by simp [Except.toOption])
    | ok factor =>
      rw [h] at hfound
      exact congrArg Except.ok (Option.some.inj hfound)

end Pool
end Muster
