import Muster.Property.Constraint
import Muster.Proofs.Double.Neighbours

/-!
Constraints as comparisons. The bound of a constraint has both ends included, so a strict comparison
takes the double next to its value for an end. That end leaves out the value itself and nothing
else, whatever the sign of a zero and however small the value; only an infinity that nothing is
beyond is next to itself and stays within. A value that is no number is within no bound, as it
compares with nothing.

Main statements: `contains_below_iff`, `contains_above_iff`, `contains_ofConstraint_iff`.
-/

namespace Muster

namespace ConstraintKind

/-- Whether `x` compares with the value of a constraint as the kind says. -/
def Compares : ConstraintKind → Double → Double → Prop
  | equal, x, value => x.same value = true
  | lessThan, x, value => x < value
  | lessOrEqual, x, value => x ≤ value
  | greaterThan, x, value => value < x
  | greaterOrEqual, x, value => value ≤ x

instance (kind : ConstraintKind) (x value : Double) : Decidable (kind.Compares x value) := by
  cases kind <;> exact inferInstanceAs (Decidable (_ = _))

/-- Whether a strict comparison is with the infinity that nothing is beyond. -/
def IsPastAll : ConstraintKind → Double → Prop
  | lessThan, value => value = .negInfinity
  | greaterThan, value => value = .infinity
  | _, _ => False

end ConstraintKind

namespace ValueBound

variable {b : ValueBound} {x y : Double}

theorem contains_iff : b.contains x = true ↔ b.min ≤ x ∧ x ≤ b.max := by
  rw [contains, Bool.and_eq_true, decide_eq_true_iff, decide_eq_true_iff]

/-- A bound without a lower end holds all that is not above its upper end. -/
theorem contains_below_iff : (⟨.negInfinity, y⟩ : ValueBound).contains x = true ↔ x ≤ y := by
  rw [contains_iff]
  exact and_iff_right_of_imp fun h => Double.negInfinity_le (Double.isNumber_left h)

/-- A bound without an upper end holds all that is not below its lower end. -/
theorem contains_above_iff : (⟨y, .infinity⟩ : ValueBound).contains x = true ↔ y ≤ x := by
  rw [contains_iff]
  exact and_iff_left_of_imp fun h => Double.le_infinity (Double.isNumber_right h)

theorem contains_single_iff : (⟨y, y⟩ : ValueBound).contains x = true ↔ x.same y = true := by
  rw [contains_iff, Double.le_iff_and, Double.le_iff_and, Double.same_iff_and]
  constructor
  · rintro ⟨⟨⟨hy, hx⟩, hle⟩, -, hge⟩
    exact ⟨⟨hx, hy⟩, Int.le_antisymm hge hle⟩
  · rintro ⟨⟨hx, hy⟩, heq⟩
    exact ⟨⟨⟨hy, hx⟩, heq.ge⟩, ⟨hx, hy⟩, heq.le⟩

/-- The bound of a constraint holds what compares with its value as it says, and nothing else,
except that an infinity that nothing is beyond is held by the strict comparison with it. -/
theorem contains_ofConstraint_iff (c : PropertyConstraint) (x : Double) :
    (ofConstraint c).contains x = true ↔
      c.kind.Compares x c.value ∨ c.kind.IsPastAll c.value ∧ x = c.value := by
  obtain ⟨property, kind, value⟩ := c
  cases kind with
  | equal => exact contains_single_iff.trans (or_iff_left And.left).symm
  | lessThan =>
    refine contains_below_iff.trans (Double.le_nextBelow_iff.trans (or_congr_right ?_))
    refine and_congr_right fun (h : value = .negInfinity) => ?_
    rw [h]
  | lessOrEqual => exact contains_below_iff.trans (or_iff_left And.left).symm
  | greaterThan =>
    refine contains_above_iff.trans (Double.nextAbove_le_iff.trans (or_congr_right ?_))
    refine and_congr_right fun (h : value = .infinity) => ?_
    rw [h]
  | greaterOrEqual => exact contains_above_iff.trans (or_iff_left And.left).symm

-- Below the zeros of both signs comes the greatest negative double.
example : (ofConstraint ⟨⟨"payload"⟩, .lessThan, 0⟩).max = ⟨0x8000000000000001⟩ := by
  decide +kernel

/-- Nothing is below negative infinity or above infinity, and yet both are held by the constraints
that ask for that. -/
theorem contains_pastAll :
    (ofConstraint ⟨⟨"payload"⟩, .lessThan, .negInfinity⟩).contains .negInfinity = true ∧
    ¬ ConstraintKind.lessThan.Compares .negInfinity .negInfinity ∧
    (ofConstraint ⟨⟨"payload"⟩, .greaterThan, .infinity⟩).contains .infinity = true ∧
    ¬ ConstraintKind.greaterThan.Compares .infinity .infinity := by
  decide

end ValueBound
end Muster
