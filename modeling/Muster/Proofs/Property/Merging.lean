import Muster.Proofs.Property.Bounds
import Muster.Proofs.Property.Comparison

/-!
Constraints that are merged. Narrowing takes the larger of the lower ends and the smaller of the
upper ones, and in both what is no number gives way to a number. So a bound that is narrowed keeps
the values that the constraint admits, unless the constraint is on a value that is no number: that
one admits nothing, and yet it takes nothing away. What is left of all constraints are the numbers
that those on numbers admit, and the constraints contradict each other just if there are none.

Main statements: `contains_narrow_iff`, `merge_decides`.
-/

namespace Muster

namespace Double

variable {x : Double}

theorem isNumber_nextAbove_iff : x.nextAbove.IsNumber ↔ x.IsNumber := by
  by_cases hx : x.IsNumber
  · refine iff_of_true ?_ hx
    by_cases hinf : x = infinity
    · rw [hinf, IsNumber]
      decide
    · exact (rank_nextAbove hx hinf).1
  · have hstay : x.nextAbove = x := by
      rw [nextAbove, Bool.of_not_eq_false hx, Bool.true_or, if_pos rfl]
    rw [hstay]

theorem isNumber_nextBelow_iff : x.nextBelow.IsNumber ↔ x.IsNumber := by
  rw [nextBelow, isNumber_neg_iff, isNumber_nextAbove_iff, isNumber_neg_iff]

end Double

namespace ValueBound

variable {b b' : ValueBound} {c : PropertyConstraint} {x : Double}

/-! ### One constraint -/

theorem isNumber_of_contains (h : b.contains x = true) : x.IsNumber :=
  Double.isNumber_right (contains_iff.1 h).1

/-- A constraint on a number has numbers for ends. -/
theorem isNumber_ends (h : c.value.IsNumber) :
    (ofConstraint c).min.IsNumber ∧ (ofConstraint c).max.IsNumber := by
  obtain ⟨property, kind, value⟩ := c
  have hinf : Double.infinity.IsNumber ∧ Double.negInfinity.IsNumber := by
    rw [Double.IsNumber, Double.IsNumber]
    decide
  cases kind with
  | equal => exact ⟨h, h⟩
  | lessThan => exact ⟨hinf.2, Double.isNumber_nextBelow_iff.2 h⟩
  | lessOrEqual => exact ⟨hinf.2, h⟩
  | greaterThan => exact ⟨Double.isNumber_nextAbove_iff.2 h, hinf.1⟩
  | greaterOrEqual => exact ⟨h, hinf.1⟩

/-- A constraint on what is no number has no end among the numbers. -/
theorem ends_of_not_isNumber (h : ¬ c.value.IsNumber) (hx : x.IsNumber) :
    ((ofConstraint c).min.IsNumber → (ofConstraint c).min ≤ x) ∧
      ((ofConstraint c).max.IsNumber → x ≤ (ofConstraint c).max) := by
  obtain ⟨property, kind, value⟩ := c
  have hbelow := Double.negInfinity_le hx
  have habove := Double.le_infinity hx
  cases kind with
  | equal => exact ⟨fun hmin => absurd hmin h, fun hmax => absurd hmax h⟩
  | lessThan =>
    exact ⟨fun _ => hbelow, fun hmax => absurd (Double.isNumber_nextBelow_iff.1 hmax) h⟩
  | lessOrEqual => exact ⟨fun _ => hbelow, fun hmax => absurd hmax h⟩
  | greaterThan =>
    exact ⟨fun hmin => absurd (Double.isNumber_nextAbove_iff.1 hmin) h, fun _ => habove⟩
  | greaterOrEqual => exact ⟨fun hmin => absurd hmin h, fun _ => habove⟩

/-- What a constraint takes away is outside of those of its ends that are numbers. -/
theorem ends_iff (hx : x.IsNumber) :
    ((ofConstraint c).min.IsNumber → (ofConstraint c).min ≤ x) ∧
      ((ofConstraint c).max.IsNumber → x ≤ (ofConstraint c).max) ↔
    (c.value.IsNumber → (ofConstraint c).contains x = true) := by
  by_cases h : c.value.IsNumber
  · obtain ⟨hmin, hmax⟩ := isNumber_ends h
    simp only [hmin, hmax, h, true_implies, contains_iff]
  · exact iff_of_true (ends_of_not_isNumber h hx) fun h' => absurd h' h

/-- The ends of a bound that is narrowed hold what both hold, if the constraint is on a number. -/
theorem contains_ends_iff (hb : b.min ≤ b.max) :
    (⟨b.min.max (ofConstraint c).min, b.max.min (ofConstraint c).max⟩ : ValueBound).contains x =
      true ↔
    b.contains x = true ∧ (c.value.IsNumber → (ofConstraint c).contains x = true) := by
  rw [contains_iff, (Double.isNumber_left hb).max_le_iff, (Double.isNumber_right hb).le_min_iff,
    and_and_and_comm, ← contains_iff]
  exact and_congr_right fun h => ends_iff (isNumber_of_contains h)

/-- A bound that is narrowed holds what both hold, if the constraint is on a number. -/
theorem contains_narrow_iff (hb : b.min ≤ b.max) (h : b.narrow c = .ok b') :
    b'.contains x = true ↔
      b.contains x = true ∧ (c.value.IsNumber → (ofConstraint c).contains x = true) := by
  rw [(narrow_eq_ok_iff.1 h).1]
  exact contains_ends_iff hb

/-- A bound that holds a value has its ends the right way round. -/
theorem min_le_max_of_contains (h : b.contains x = true) : b.min ≤ b.max :=
  Double.le_trans (contains_iff.1 h).1 (contains_iff.1 h).2

theorem contains_min (h : b.min ≤ b.max) : b.contains b.min = true := by
  have hmin := Double.isNumber_left h
  exact contains_iff.2 ⟨(hmin.le_iff hmin).2 (Int.le_refl _), h⟩

/-- A bound can be narrowed just if a value is left; else the error names the property. -/
theorem narrow_cases (hb : b.min ≤ b.max) (c : PropertyConstraint) :
    (∃ b', b.narrow c = .ok b') ∨
      (∃ reason, b.narrow c = .error (.unsatisfiable c.property reason)) ∧
      ∀ x, ¬ (b.contains x = true ∧
        (c.value.IsNumber → (ofConstraint c).contains x = true)) := by
  by_cases hle : b.min.max (ofConstraint c).min ≤ b.max.min (ofConstraint c).max
  · exact .inl ⟨_, narrow_eq_ok_iff.2 ⟨rfl, hle⟩⟩
  · refine .inr ⟨⟨"'" ++ c.text ++ "' contradicts the bound " ++ b.text, ?_⟩, fun x hx => ?_⟩
    · rw [narrow, intersect]
      simp only [isEmpty, hle, decide_false, Bool.not_false, if_true]
    · have hends := min_le_max_of_contains ((contains_ends_iff hb).2 hx)
      exact hle hends

/-! ### All constraints -/

/-- Whether a number is admitted by all constraints on a property that are on numbers. -/
structure IsAdmitted (property : Model) (cs : List PropertyConstraint) (x : Double) : Prop where
  isNumber : x.IsNumber
  contains : ∀ c ∈ cs, c.property = property → c.value.IsNumber →
    (ofConstraint c).contains x = true

/-- What a bound is narrowed to by constraints on one property, and when it is not. -/
theorem foldlM_narrow_cases {property : Model} : ∀ {cs : List PropertyConstraint} {b : ValueBound},
    b.min ≤ b.max → (∀ c ∈ cs, c.property = property) →
    (∃ b', cs.foldlM narrow b = .ok b' ∧ b'.min ≤ b'.max ∧ ∀ x, b'.contains x = true ↔
      b.contains x = true ∧ ∀ c ∈ cs, c.value.IsNumber → (ofConstraint c).contains x = true) ∨
    (∃ reason, cs.foldlM narrow b = .error (.unsatisfiable property reason)) ∧
      ∀ x, ¬ (b.contains x = true ∧
        ∀ c ∈ cs, c.value.IsNumber → (ofConstraint c).contains x = true)
  | [], b, hb, _ => .inl ⟨b, rfl, hb, by simp⟩
  | c :: cs, b, hb, hcs => by
    obtain ⟨hc, hcs⟩ := List.forall_mem_cons.1 hcs
    rcases narrow_cases hb c with ⟨d, hd⟩ | ⟨⟨reason, herror⟩, hnone⟩
    · have hfold : (c :: cs).foldlM narrow b = cs.foldlM narrow d := by
        rw [List.foldlM_cons, hd]
        rfl
      have hleft : ∀ x, (b.contains x = true ∧
          ∀ d ∈ c :: cs, d.value.IsNumber → (ofConstraint d).contains x = true) ↔
          d.contains x = true ∧
            ∀ d ∈ cs, d.value.IsNumber → (ofConstraint d).contains x = true := by
        intro x
        rw [List.forall_mem_cons, ← and_assoc, contains_narrow_iff hb hd]
      simp only [hfold, hleft]
      exact foldlM_narrow_cases (narrow_eq_ok_iff.1 hd).2 hcs
    · refine .inr ⟨⟨reason, ?_⟩, fun x hx => hnone x ?_⟩
      · rw [List.foldlM_cons, herror, hc]
        rfl
      · exact ⟨hx.1, hx.2 c List.mem_cons_self⟩

theorem contains_unbounded_iff : unbounded.contains x = true ↔ x.IsNumber :=
  ⟨isNumber_of_contains, fun h => contains_iff.2 ⟨Double.negInfinity_le h, Double.le_infinity h⟩⟩

theorem isAdmitted_iff {property : Model} {cs : List PropertyConstraint} :
    IsAdmitted property cs x ↔ unbounded.contains x = true ∧
      ∀ c ∈ cs.filter (·.property == property),
        c.value.IsNumber → (ofConstraint c).contains x = true := by
  simp only [contains_unbounded_iff, List.mem_filter, beq_iff_eq, and_imp]
  exact ⟨fun h => ⟨h.isNumber, h.contains⟩, fun h => ⟨h.1, h.2⟩⟩

/-- Merging leaves a bound that holds what is admitted, or nothing is admitted. -/
theorem merge_cases (property : Model) (cs : List PropertyConstraint) :
    (∃ b, merge property cs = .ok b ∧ b.min ≤ b.max ∧
      ∀ x, b.contains x = true ↔ IsAdmitted property cs x) ∨
    (∃ reason, merge property cs = .error (.unsatisfiable property reason)) ∧
      ∀ x, ¬ IsAdmitted property cs x := by
  simp only [isAdmitted_iff]
  exact foldlM_narrow_cases (by decide) fun c hc => beq_iff_eq.1 (List.mem_filter.1 hc).2

/-- What is admitted does not depend on the order of the constraints on a property, nor on those on
others. -/
theorem isAdmitted_congr {property : Model} {cs cs' : List PropertyConstraint}
    (h : (cs.filter (·.property == property)).Perm (cs'.filter (·.property == property))) :
    IsAdmitted property cs x ↔ IsAdmitted property cs' x := by
  simp only [isAdmitted_iff, h.mem_iff]

section Merge

variable {property : Model} {cs : List PropertyConstraint}

theorem leaves_of_merge (h : merge property cs = .ok b) :
    b.min ≤ b.max ∧ ∀ x, b.contains x = true ↔ IsAdmitted property cs x := by
  rcases merge_cases property cs with ⟨d, hd, hrest⟩ | ⟨⟨reason, herror⟩, -⟩
  · obtain rfl := Except.ok.inj (hd.symm.trans h)
    exact hrest
  · exact nomatch herror.symm.trans h

/-- Constraints that do not contradict each other leave some values. -/
theorem merge_le (h : merge property cs = .ok b) : b.min ≤ b.max :=
  (leaves_of_merge h).1

theorem contains_iff_of_merge (h : merge property cs = .ok b) (x : Double) :
    b.contains x = true ↔ IsAdmitted property cs x :=
  (leaves_of_merge h).2 x

theorem exists_merge_iff :
    (∃ b, merge property cs = .ok b) ↔ ∃ x, IsAdmitted property cs x := by
  constructor
  · rintro ⟨b, hb⟩
    exact ⟨b.min, (contains_iff_of_merge hb b.min).1 (contains_min (merge_le hb))⟩
  · rintro ⟨x, hx⟩
    rcases merge_cases property cs with ⟨b, hb, -⟩ | ⟨-, hnone⟩
    · exact ⟨b, hb⟩
    · exact absurd hx (hnone x)

theorem exists_unsatisfiable_iff :
    (∃ reason, merge property cs = .error (.unsatisfiable property reason)) ↔
      ¬ ∃ x, IsAdmitted property cs x := by
  rw [← exists_merge_iff]
  constructor
  · rintro ⟨reason, herror⟩ ⟨b, hb⟩
    exact nomatch herror.symm.trans hb
  · intro h
    rcases merge_cases property cs with ⟨b, hb, -⟩ | ⟨herror, -⟩
    · exact absurd ⟨b, hb⟩ h
    · exact herror

end Merge

/-- If constraints can be merged, the bound holds the numbers that all of them on numbers admit; if
they cannot, there are none, and the error names the property. The order of the constraints does not
matter, and those on other properties do not either. -/
theorem merge_decides (property : Model) (cs : List PropertyConstraint) :
    (∀ b, merge property cs = .ok b → ∀ x, b.contains x = true ↔ IsAdmitted property cs x) ∧
    ((∃ b, merge property cs = .ok b) ↔ ∃ x, IsAdmitted property cs x) ∧
    ((∃ reason, merge property cs = .error (.unsatisfiable property reason)) ↔
      ¬ ∃ x, IsAdmitted property cs x) ∧
    ∀ cs', (cs.filter (·.property == property)).Perm (cs'.filter (·.property == property)) →
      ((∃ b, merge property cs = .ok b) ↔ ∃ b, merge property cs' = .ok b) ∧
      ∀ b b', merge property cs = .ok b → merge property cs' = .ok b' →
        ∀ x, b.contains x = b'.contains x := by
  refine ⟨fun b hb => contains_iff_of_merge hb, exists_merge_iff, exists_unsatisfiable_iff,
    fun cs' hperm => ⟨?_, fun b b' hb hb' x => ?_⟩⟩
  · simp only [exists_merge_iff, isAdmitted_congr hperm]
  · rw [Bool.eq_iff_iff, contains_iff_of_merge hb, contains_iff_of_merge hb',
      isAdmitted_congr hperm]

/-- A constraint on what is no number takes nothing away, before or behind the others. -/
theorem merge_decides_payload :
    let atLeast : PropertyConstraint := ⟨⟨"payload"⟩, .greaterOrEqual, 5⟩
    let below : PropertyConstraint := ⟨⟨"payload"⟩, .lessThan, .nan⟩
    let light : PropertyConstraint := ⟨⟨"mass"⟩, .lessOrEqual, 1⟩
    merge ⟨"payload"⟩ [atLeast, below] = .ok ⟨5, .infinity⟩ ∧
      IsAdmitted ⟨"payload"⟩ [atLeast, below] 8 ∧
      ∃ b, merge ⟨"payload"⟩ [below, light, atLeast] = .ok b ∧ b.contains 8 = true := by
  intro atLeast below light
  have hmerge : merge ⟨"payload"⟩ [atLeast, below] = .ok ⟨5, .infinity⟩ := by decide +kernel
  obtain ⟨hcontains, -, -, hperm⟩ := merge_decides ⟨"payload"⟩ [atLeast, below]
  obtain ⟨hok, hsame⟩ := hperm [below, light, atLeast] (.swap below atLeast [])
  obtain ⟨b, hb⟩ := hok.1 ⟨_, hmerge⟩
  have height : contains ⟨5, .infinity⟩ 8 = true := by decide +kernel
  exact ⟨hmerge, (hcontains _ hmerge 8).1 height, b, hb, hsame _ b hmerge hb 8 ▸ height⟩

/-- No number is the same as what is no number, and yet asking for that leaves every number. -/
theorem merge_equal_nan :
    merge ⟨"payload"⟩ [⟨⟨"payload"⟩, .equal, .nan⟩] = .ok unbounded ∧
    unbounded.contains 0 = true ∧
    ∀ x, (ofConstraint ⟨⟨"payload"⟩, .equal, .nan⟩).contains x = false := by
  refine ⟨by decide +kernel, by decide +kernel, fun x => Bool.eq_false_iff.2 fun h => ?_⟩
  have hnan : Double.nan.isNaN = false := Double.isNumber_left (contains_iff.1 h).1
  exact absurd hnan (by decide)

end ValueBound
end Muster
