import Mathlib.Data.List.Induction
import Muster.Proofs.Double.Multiple
import Muster.Property.Resource

/-!
The constraints of a resource, in order. Their order is total and tells apart all that differ, zeros
of both signs and the patterns that stand for no number among them. A constraint is put between those
that do not come after it and those that do, so the list stays in order, and as a list in order is
told by its members, it does not matter in which order they came. Constraints on one property stand
next to each other.

Main statements: `place_append`, `flatMap_filter_eq`, `constraints_ofConstraints`.
-/

namespace Muster

open Std

namespace Double

/-- Patterns are told apart by their places in the total order. -/
theorem eq_of_totalRank_eq {x y : Double} (h : x.totalRank = y.totalRank) : x = y := by
  have hbits : x.bits.toNat = y.bits.toNat := by
    rw [toNat_bits x, toNat_bits y]
    rw [totalRank, totalRank] at h
    by_cases hx : x.isNegative = true <;> by_cases hy : y.isNegative = true <;>
      simp only [hx, hy, if_true, Bool.false_eq_true, if_false] at h ⊢ <;> omega
  obtain ⟨bits⟩ := x
  obtain ⟨bits'⟩ := y
  exact congrArg Double.mk (UInt64.toNat_inj.1 hbits)

end Double

theorem ConstraintKind.eq_of_rank_eq {k k' : ConstraintKind} (h : k.rank = k'.rank) : k = k' := by
  cases k <;> cases k' <;> first | rfl | exact absurd h (by decide)

namespace PropertyConstraint

/-- Constraints are compared by property, then by kind, then by value in the total order. -/
theorem compare_eq (c d : PropertyConstraint) : compare c d =
    (compare c.property d.property).then
      ((compare c.kind.rank d.kind.rank).then (c.value.totalCompare d.value)) :=
  rfl

instance : LawfulEqOrd PropertyConstraint where
  eq_of_compare {c d} h := by
    rw [compare_eq, Ordering.then_eq_eq, Ordering.then_eq_eq] at h
    obtain ⟨hproperty, hkind, hvalue⟩ := h
    obtain ⟨property, kind, value⟩ := c
    obtain ⟨property', kind', value'⟩ := d
    obtain rfl : property = property' := LawfulEqOrd.eq_of_compare hproperty
    obtain rfl : kind = kind' := ConstraintKind.eq_of_rank_eq (LawfulEqOrd.eq_of_compare hkind)
    obtain rfl : value = value' := Double.eq_of_totalRank_eq (LawfulEqOrd.eq_of_compare hvalue)
    rfl

/-- Constraints on a property come before those on a later one. -/
theorem compare_eq_lt_of_property {c d : PropertyConstraint}
    (h : compare c.property d.property = .lt) : compare c d = .lt := by
  rw [compare_eq, h]
  rfl

end PropertyConstraint

namespace Resource

variable {c d : PropertyConstraint} {cs : List PropertyConstraint}

/-- Constraints in order. -/
def IsSorted (cs : List PropertyConstraint) : Prop := cs.Pairwise fun c d => (compare c d).isLE

theorem IsSorted.eq_of_perm {cs' : List PropertyConstraint} (h : IsSorted cs) (h' : IsSorted cs')
    (hperm : cs.Perm cs') : cs = cs' := by
  refine List.Perm.eq_of_pairwise (fun c d _ _ hcd hdc => ?_) h h' hperm
  exact LawfulEqOrd.eq_of_compare (OrientedCmp.isLE_antisymm hcd hdc)

/-! ### One more constraint -/

/-- A constraint is put where those that do not come after it end and those that do begin. -/
theorem place_append {after : List PropertyConstraint}
    (hafter : ∀ d ∈ after, (compare c d) = .lt) : ∀ {before : List PropertyConstraint},
    (∀ d ∈ before, (compare d c).isLE) → place c (before ++ after) = before ++ c :: after
  | [], _ => by
    cases after with
    | nil => rfl
    | cons d rest =>
      have hlt := hafter d List.mem_cons_self
      rw [List.nil_append, place, OrientedOrd.eq_swap (a := d), hlt]
      rfl
  | d :: before, h => by
    obtain ⟨hd, hbefore⟩ := List.forall_mem_cons.1 h
    rw [List.cons_append, place, if_pos hd, place_append hafter hbefore]
    rfl

/-- In a list in order there is such a point. -/
theorem IsSorted.exists_append (h : IsSorted cs) (c : PropertyConstraint) :
    ∃ before after, cs = before ++ after ∧ (∀ d ∈ before, (compare d c).isLE) ∧
      ∀ d ∈ after, compare c d = .lt := by
  induction cs with
  | nil => exact ⟨[], [], rfl, by simp, by simp⟩
  | cons d rest ih =>
    obtain ⟨hd, hrest⟩ := List.pairwise_cons.1 h
    by_cases hdc : (compare d c).isLE
    · obtain ⟨before, after, rfl, hbefore, hafter⟩ := ih hrest
      exact ⟨d :: before, after, rfl, List.forall_mem_cons.2 ⟨hdc, hbefore⟩, hafter⟩
    · have hcd : compare c d = .lt :=
        OrientedCmp.gt_iff_lt.1 (Ordering.isLE_eq_false.1 (Bool.eq_false_iff.2 hdc))
      refine ⟨[], d :: rest, rfl, by simp, List.forall_mem_cons.2 ⟨hcd, fun e he => ?_⟩⟩
      exact TransCmp.lt_of_lt_of_isLE hcd (hd e he)

theorem IsSorted.place (h : IsSorted cs) (c : PropertyConstraint) : IsSorted (place c cs) := by
  obtain ⟨before, after, rfl, hbefore, hafter⟩ := h.exists_append c
  rw [place_append hafter hbefore]
  obtain ⟨hb, ha, hacross⟩ := List.pairwise_append.1 h
  refine List.pairwise_append.2 ⟨hb, List.pairwise_cons.2 ⟨fun d hd => ?_, ha⟩, fun d hd e he => ?_⟩
  · rw [hafter d hd]
    rfl
  · rcases List.mem_cons.1 he with rfl | he
    · exact hbefore d hd
    · exact hacross d hd e he

theorem place_perm (c : PropertyConstraint) : ∀ cs : List PropertyConstraint,
    (Resource.place c cs).Perm (c :: cs)
  | [] => .refl _
  | d :: rest => by
    rw [Resource.place]
    split
    · exact ((place_perm c rest).cons d).trans (.swap c d rest)
    · exact .refl _

/-! ### Constraints in any order -/

theorem eq_of_constraints {r r' : Resource} (hmodel : r.model = r'.model)
    (hconstraints : r.constraints = r'.constraints) : r = r' := by
  obtain ⟨m, cs⟩ := r
  obtain ⟨m', cs'⟩ := r'
  obtain rfl : m = m' := hmodel
  obtain rfl : cs = cs' := hconstraints
  rfl

theorem isSorted_ofConstraints (m : Model) (cs : List PropertyConstraint) :
    IsSorted (ofConstraints m cs).constraints := by
  induction cs using List.reverseRecOn with
  | nil => exact .nil
  | append_singleton cs c ih =>
    rw [ofConstraints, List.foldl_concat]
    exact ih.place c

theorem ofConstraints_perm (m : Model) (cs : List PropertyConstraint) :
    (ofConstraints m cs).constraints.Perm cs := by
  induction cs using List.reverseRecOn with
  | nil => exact .refl _
  | append_singleton cs c ih =>
    rw [ofConstraints, List.foldl_concat]
    exact (place_perm c _).trans ((ih.cons c).trans (List.perm_append_singleton c cs).symm)

theorem model_ofConstraints (m : Model) (cs : List PropertyConstraint) :
    (ofConstraints m cs).model = m := by
  induction cs using List.reverseRecOn with
  | nil => rfl
  | append_singleton cs c ih =>
    rw [ofConstraints, List.foldl_concat]
    exact ih

/-! ### Constraints by property -/

/-- Where what holds of members holds of all before them, those of which it holds come first. -/
theorem filter_append_filter_not {α : Type} {p : α → Bool} : ∀ {xs : List α},
    xs.Pairwise (fun a b => p b = true → p a = true) →
    xs.filter p ++ xs.filter (fun a => !p a) = xs
  | [], _ => rfl
  | x :: xs, h => by
    obtain ⟨hx, hxs⟩ := List.pairwise_cons.1 h
    by_cases hp : p x = true
    · rw [List.filter_cons_of_pos hp, List.filter_cons_of_neg (by simpa using hp),
        List.cons_append, filter_append_filter_not hxs]
    · have hnil : xs.filter p = [] := List.filter_eq_nil_iff.2 fun y hy hpy => hp (hx y hy hpy)
      have hall : xs.filter (fun a => !p a) = xs :=
        List.filter_eq_self.2 fun y hy => by simpa using fun hpy => hp (hx y hy hpy)
      rw [List.filter_cons_of_neg hp, List.filter_cons_of_pos (by simpa using hp), hnil, hall]
      rfl

/-- The constraints on ascending properties, one property after the other, are those in order. -/
theorem flatMap_filter_eq : ∀ {ps : List Model} {cs : List PropertyConstraint},
    ps.Pairwise (fun p q => compare p q = .lt) → IsSorted cs → (∀ c ∈ cs, c.property ∈ ps) →
    (ps.flatMap fun p => cs.filter (·.property == p)) = cs
  | [], cs, _, _, hmem => by
    rw [List.flatMap_nil]
    exact (List.eq_nil_iff_forall_not_mem.2 fun c hc => List.not_mem_nil (hmem c hc)).symm
  | p :: ps, cs, hps, hcs, hmem => by
    obtain ⟨hp, hps⟩ := List.pairwise_cons.1 hps
    have hfirst : cs.Pairwise fun c d => (d.property == p) = true → (c.property == p) = true := by
      refine List.Pairwise.imp_of_mem (fun {c d} hc _ hle hd => ?_) hcs
      rw [beq_iff_eq] at hd ⊢
      -- a constraint on a later property does not stand before one on `p`
      refine (List.mem_cons.1 (hmem c hc)).resolve_right fun hlater => ?_
      have hlt := PropertyConstraint.compare_eq_lt_of_property (hd ▸ hp c.property hlater)
      rw [OrientedOrd.eq_swap, hlt] at hle
      exact absurd hle (by decide)
    have hrest : (ps.flatMap fun q => cs.filter (·.property == q)) =
        cs.filter (fun c => !(c.property == p)) := by
      refine Eq.trans (List.flatMap_congr fun q hq => ?_) (flatMap_filter_eq hps
        (hcs.filter fun c : PropertyConstraint => !(c.property == p)) fun c hc => ?_)
      · have hne : q ≠ p := fun heq => absurd (heq ▸ hp q hq) (OrderedSet.compare_self_ne_lt p)
        rw [List.filter_filter]
        refine List.filter_congr fun c _ => ?_
        by_cases hc : c.property = q
        · simp [hc, hne]
        · simp [hc]
      · obtain ⟨hc, hne⟩ := List.mem_filter.1 hc
        exact (List.mem_cons.1 (hmem c hc)).resolve_left (by simpa using hne)
    rw [List.flatMap_cons, hrest, filter_append_filter_not hfirst]

/-- Groups of constraints that stand next to each other: all on one property in each group, each
property in one group. -/
structure IsClustered (cs : List PropertyConstraint)
    (groups : List (Model × List PropertyConstraint)) : Prop where
  flatten : (groups.map Prod.snd).flatten = cs
  ascending : (groups.map Prod.fst).Pairwise fun p q => compare p q = .lt
  ne_nil : ∀ g ∈ groups, g.2 ≠ []
  property_eq : ∀ g ∈ groups, ∀ c ∈ g.2, c.property = g.1

theorem isClustered_clusters {r : Resource} (h : IsSorted r.constraints) :
    IsClustered r.constraints r.clusters where
  flatten := by
    rw [clusters, List.map_map, ← List.flatMap_def]
    refine flatMap_filter_eq r.properties.ascending h fun c hc => ?_
    exact OrderedSet.mem_ofList.2 (List.mem_map_of_mem hc)
  ascending := by
    have hkeys : r.clusters.map Prod.fst = r.properties.toList := by
      rw [clusters, List.map_map]
      exact List.map_id _
    rw [hkeys]
    exact r.properties.ascending
  ne_nil g hg := by
    obtain ⟨p, hp, rfl⟩ := List.mem_map.1 hg
    obtain ⟨c, hc, rfl⟩ := List.mem_map.1 (OrderedSet.mem_ofList.1 hp)
    exact List.ne_nil_of_mem (List.mem_filter.2 ⟨hc, beq_self_eq_true c.property⟩)
  property_eq g hg c hc := by
    obtain ⟨p, -, rfl⟩ := List.mem_map.1 hg
    exact beq_iff_eq.1 (List.mem_filter.1 hc).2

/-- Constraints given in any order make the same resource. It has all of them, as often as they are
given, by property, then by kind, then by value in the total order, and its clusters are those on
one property after those on another. -/
theorem constraints_ofConstraints (m : Model) (cs : List PropertyConstraint) :
    (ofConstraints m cs).model = m ∧
    (ofConstraints m cs).constraints.Perm cs ∧
    ((ofConstraints m cs).constraints.Pairwise fun c d =>
      ((compare c.property d.property).then ((compare c.kind.rank d.kind.rank).then
        (c.value.totalCompare d.value))).isLE) ∧
    IsClustered (ofConstraints m cs).constraints (ofConstraints m cs).clusters ∧
    ∀ cs', cs.Perm cs' → ofConstraints m cs = ofConstraints m cs' := by
  have hsorted := isSorted_ofConstraints m cs
  have hperm := ofConstraints_perm m cs
  refine ⟨model_ofConstraints m cs, hperm, hsorted, isClustered_clusters hsorted,
    fun cs' hcs => ?_⟩
  have hmodel : (ofConstraints m cs).model = (ofConstraints m cs').model :=
    (model_ofConstraints m cs).trans (model_ofConstraints m cs').symm
  have hconstraints := hsorted.eq_of_perm (isSorted_ofConstraints m cs')
    (hperm.trans (hcs.trans (ofConstraints_perm m cs').symm))
  exact eq_of_constraints hmodel hconstraints

/-- A repeated constraint, zeros of both signs and a negative pattern that stands for no number, in
two orders. -/
theorem constraints_ofConstraints_payload :
    let zero : PropertyConstraint := ⟨⟨"payload"⟩, .equal, 0⟩
    let negZero : PropertyConstraint := ⟨⟨"payload"⟩, .equal, Double.neg 0⟩
    let noNumber : PropertyConstraint := ⟨⟨"payload"⟩, .equal, Double.nan.neg⟩
    let light : PropertyConstraint := ⟨⟨"mass"⟩, .lessOrEqual, 1⟩
    [zero, noNumber, light, negZero, zero].Perm [negZero, zero, light, zero, noNumber] ∧
    ofConstraints ⟨"Carry"⟩ [zero, noNumber, light, negZero, zero] =
      ofConstraints ⟨"Carry"⟩ [negZero, zero, light, zero, noNumber] ∧
    (ofConstraints ⟨"Carry"⟩ [zero, noNumber, light, negZero, zero]).constraints =
      [light, noNumber, negZero, zero, zero] := by
  intro zero negZero noNumber light
  have hperm : [zero, noNumber, light, negZero, zero].Perm
      [negZero, zero, light, zero, noNumber] := by
    decide +kernel
  obtain ⟨-, -, -, -, hsame⟩ :=
    constraints_ofConstraints ⟨"Carry"⟩ [zero, noNumber, light, negZero, zero]
  exact ⟨hperm, hsame _ hperm, by decide +kernel⟩

end Resource
end Muster
