import Muster.Property.Resource
import Muster.Proofs.Double.Order
import Muster.Proofs.Property.Scaling

/-!
More constraints leave fewer values. A constraint narrows a bound from either side and moves its
ends inwards, also where it is on a value that is no number; so whatever constraints are added, the
bound that all of them leave lies within the bound that some of them leave.

Main statements: `narrow_eq_ok_iff`, `IsWithin.narrow`, `merge_of_sublist`, `sublist_place`.
-/

namespace Muster

namespace ValueBound

variable {a b b' d d' : ValueBound} {c : PropertyConstraint} {cs cs' : List PropertyConstraint}
  {property : Model}

/-- Whether the ends of a bound are not outside those of another. -/
structure IsWithin (d b : ValueBound) : Prop where
  min_le : b.min ≤ d.min
  le_max : d.max ≤ b.max

theorem IsWithin.trans (h : d.IsWithin b) (h' : b.IsWithin a) : d.IsWithin a :=
  ⟨Double.le_trans h'.min_le h.min_le, Double.le_trans h.le_max h'.le_max⟩

theorem isWithin_unbounded : unbounded.IsWithin unbounded := ⟨by decide, by decide⟩

/-- A constraint moves the ends inwards, unless they pass each other. -/
theorem narrow_eq_ok_iff : b.narrow c = .ok b' ↔
    b' = ⟨b.min.max (ofConstraint c).min, b.max.min (ofConstraint c).max⟩ ∧ b'.min ≤ b'.max := by
  rw [narrow, intersect]
  by_cases hle : b.min.max (ofConstraint c).min ≤ b.max.min (ofConstraint c).max
  · simp only [isEmpty, hle, decide_true, Bool.not_true, Bool.false_eq_true, if_false,
      Except.ok.injEq]
    constructor
    · rintro rfl
      exact ⟨rfl, hle⟩
    · rintro ⟨rfl, -⟩
      rfl
  · simp only [isEmpty, hle, decide_false, Bool.not_false, if_true]
    refine iff_of_false (by simp) ?_
    rintro ⟨rfl, hle'⟩
    exact hle hle'

theorem isWithin_of_narrow (hmin : b.min.IsNumber) (hmax : b.max.IsNumber)
    (h : b.narrow c = .ok b') : b'.IsWithin b := by
  obtain ⟨rfl, -⟩ := narrow_eq_ok_iff.1 h
  exact ⟨hmin.le_max_left _, hmax.min_le_left _⟩

/-- What narrows a bound can also narrow a wider one, and leaves it wider. -/
theorem IsWithin.narrow (h : d.IsWithin b) (hd : d.narrow c = .ok d') :
    ∃ b', b.narrow c = .ok b' ∧ d'.IsWithin b' := by
  obtain ⟨rfl, hle⟩ := narrow_eq_ok_iff.1 hd
  have hmin := Double.max_mono h.min_le (ofConstraint c).min
  have hmax := Double.min_mono h.le_max (ofConstraint c).max
  exact ⟨_, narrow_eq_ok_iff.2 ⟨rfl, Double.le_trans hmin (Double.le_trans hle hmax)⟩, hmin, hmax⟩

theorem foldlM_narrow_of_sublist (h : cs.Sublist cs') (hwithin : d.IsWithin b)
    (hd : cs'.foldlM ValueBound.narrow d = .ok d') :
    ∃ b', cs.foldlM ValueBound.narrow b = .ok b' ∧ d'.IsWithin b' := by
  induction h generalizing b d with
  | slnil =>
    obtain rfl := Except.ok.inj hd
    exact ⟨b, rfl, hwithin⟩
  | cons c _ ih =>
    -- the wider bound stays as it is
    obtain ⟨e, he, hrest⟩ := exists_of_bind_eq_ok hd
    have hnarrowed := isWithin_of_narrow (Double.isNumber_right hwithin.min_le)
      (Double.isNumber_left hwithin.le_max) he
    exact ih (hnarrowed.trans hwithin) hrest
  | cons_cons c _ ih =>
    obtain ⟨e, he, hrest⟩ := exists_of_bind_eq_ok hd
    obtain ⟨e', he', hwithin'⟩ := hwithin.narrow he
    rw [List.foldlM_cons, he']
    exact ih hwithin' hrest

/-- Some of the constraints on a property leave at least the values that all of them leave. -/
theorem merge_of_sublist (h : cs.Sublist cs') (hd : merge property cs' = .ok d) :
    ∃ b, merge property cs = .ok b ∧ d.IsWithin b :=
  foldlM_narrow_of_sublist (h.filter _) isWithin_unbounded hd

end ValueBound

namespace Resource

variable {r r' : Resource} {property : Model}

/-- A constraint that is put in its place leaves the others in order. -/
theorem sublist_place (c : PropertyConstraint) :
    ∀ cs : List PropertyConstraint, cs.Sublist (place c cs)
  | [] => List.nil_sublist _
  | d :: rest => by
    rw [place]
    split
    · exact (sublist_place c rest).cons_cons d
    · exact List.sublist_cons_self c (d :: rest)

theorem mem_properties_of_sublist (h : r.constraints.Sublist r'.constraints)
    (hproperty : property ∈ r.properties) : property ∈ r'.properties := by
  rw [properties, OrderedSet.mem_ofList] at hproperty ⊢
  exact (h.map _).subset hproperty

end Resource
end Muster
