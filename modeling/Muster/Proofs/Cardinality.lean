import Mathlib.Data.List.Lemmas
import Mathlib.Order.Bounds.Defs
import Muster.Cardinality

/-!
Intervals of numbers. What the restrictions on a class leave is told from the sets of their lower
and upper limits, so their order and their repetitions do not matter. A joined map is read class by
class, and the laws of the two operations carry over from numbers to intervals, and from intervals
to maps.

Main statements: `get?_ofRestrictions_iff`, `ofRestrictions_congr`, `get?_join`, `join_comm`,
`join_assoc`, `IsProper.join`.
-/

namespace Muster

open Std

/-! ### Numbers -/

instance lawfulOrderMinUInt32 : LawfulOrderLeftLeaningMin UInt32 where
  min_eq_left _ _ h := if_pos h
  min_eq_right _ _ h := if_neg h

instance lawfulOrderMaxUInt32 : LawfulOrderLeftLeaningMax UInt32 where
  max_eq_left m n h := by
    show (if m ≤ n then n else m) = m
    split
    · exact UInt32.le_antisymm h ‹_›
    · rfl
  max_eq_right _ _ h := if_pos (UInt32.le_of_lt (UInt32.not_le.1 h))

theorem ite_lt_eq_max (m n : UInt32) : (if m < n then n else m) = max m n := by
  rw [max_eq_if]
  by_cases h : m < n
  · rw [if_pos h, if_neg (UInt32.not_le.2 h)]
  · rw [if_neg h, if_pos (UInt32.not_lt.1 h)]

theorem ite_lt_eq_min (m n : UInt32) : (if n < m then n else m) = min m n := by
  rw [min_eq_if]
  by_cases h : n < m
  · rw [if_pos h, if_neg (UInt32.not_le.2 h)]
  · rw [if_neg h, if_pos (UInt32.not_lt.1 h)]

namespace JoinOperation

variable (op : JoinOperation)

theorem toNat_apply (m n : UInt32) : (op.apply m n).toNat =
    match op with
    | sum => min (m.toNat + n.toNat) countLimit
    | max => Max.max m.toNat n.toNat := by
  cases op with
  | sum => exact toNat_addCounts m n
  | max =>
    simp only [apply, UInt32.lt_iff_toNat_lt]
    split <;> omega

theorem apply_comm (m n : UInt32) : op.apply m n = op.apply n m := by
  refine UInt32.toNat_inj.1 ?_
  cases op <;> simp only [toNat_apply] <;> omega

theorem apply_assoc (m n k : UInt32) : op.apply (op.apply m n) k = op.apply m (op.apply n k) := by
  refine UInt32.toNat_inj.1 ?_
  cases op <;> simp only [toNat_apply] <;> omega

theorem apply_zero (m : UInt32) : op.apply m 0 = m := by
  have hm : m.toNat ≤ countLimit := Nat.le_of_lt_succ m.toNat_lt
  refine UInt32.toNat_inj.1 ?_
  cases op <;> simp only [toNat_apply, UInt32.toNat_zero] <;> omega

theorem apply_mono {m m' n n' : UInt32} (hm : m ≤ m') (hn : n ≤ n') :
    op.apply m n ≤ op.apply m' n' := by
  rw [UInt32.le_iff_toNat_le] at hm hn ⊢
  cases op <;> simp only [toNat_apply] <;> omega

theorem le_apply_left (m n : UInt32) : m ≤ op.apply m n := by
  have h := op.apply_mono (UInt32.le_refl m) (UInt32.zero_le : 0 ≤ n)
  rwa [apply_zero] at h

theorem apply_max_self (m : UInt32) : max.apply m m = m := ite_self m

end JoinOperation

/-! ### Intervals -/

namespace CardinalityBound

variable {ns : List UInt32} {n : UInt32} {lower upper : Set UInt32} {b c : CardinalityBound}

theorem largest?_eq_max? : largest? ns = ns.max? := by
  cases ns with
  | nil => rfl
  | cons n ns =>
    rw [largest?, reduce?, List.max?_cons']
    simp only [ite_lt_eq_max]

theorem smallest?_eq_min? : smallest? ns = ns.min? := by
  cases ns with
  | nil => rfl
  | cons n ns =>
    rw [smallest?, reduce?, List.min?_cons']
    simp only [ite_lt_eq_min]

theorem exists_largest? (h : n ∈ ns) : ∃ m, largest? ns = some m ∧ IsGreatest {n | n ∈ ns} m := by
  rw [largest?_eq_max?]
  obtain ⟨m, hm⟩ := Option.isSome_iff_exists.1 (List.isSome_max?_of_mem h)
  exact ⟨m, hm, List.max?_eq_some_iff.1 hm⟩

theorem exists_smallest? (h : n ∈ ns) : ∃ m, smallest? ns = some m ∧ IsLeast {n | n ∈ ns} m := by
  rw [smallest?_eq_min?]
  obtain ⟨m, hm⟩ := Option.isSome_iff_exists.1 (List.isSome_min?_of_mem h)
  exact ⟨m, hm, List.min?_eq_some_iff.1 hm⟩

theorem lowerOf_eq_some_iff {r : CardinalityRestriction} :
    lowerOf r = some n ↔ (r.kind = .min ∨ r.kind = .exact) ∧ r.cardinality = n := by
  cases h : r.kind <;> simp [lowerOf, h]

theorem upperOf_eq_some_iff {r : CardinalityRestriction} :
    upperOf r = some n ↔ (r.kind = .max ∨ r.kind = .exact) ∧ r.cardinality = n := by
  cases h : r.kind <;> simp [upperOf, h]

/-- An interval is the tightest between limits if it starts at the largest lower limit, at zero if
there is none, and ends at the smallest upper limit, but not before its start, and at its start if
there is no upper limit. -/
structure IsTightest (lower upper : Set UInt32) (b : CardinalityBound) : Prop where
  min_isGreatest : lower.Nonempty → IsGreatest lower b.min
  min_eq_zero : lower = ∅ → b.min = 0
  max_eq_max : upper.Nonempty → ∃ n, IsLeast upper n ∧ b.max = Max.max n b.min
  max_eq_min : upper = ∅ → b.max = b.min

theorem IsTightest.min_le_max (h : IsTightest lower upper b) : b.min ≤ b.max := by
  rcases upper.eq_empty_or_nonempty with hempty | hupper
  · exact h.max_eq_min hempty ▸ UInt32.le_refl _
  · obtain ⟨n, -, hmax⟩ := h.max_eq_max hupper
    exact hmax ▸ Std.right_le_max

/-- Limits leave one interval only. -/
theorem IsTightest.unique (hb : IsTightest lower upper b) (hc : IsTightest lower upper c) :
    b = c := by
  have hmin : b.min = c.min := by
    rcases lower.eq_empty_or_nonempty with hempty | hlower
    · rw [hb.min_eq_zero hempty, hc.min_eq_zero hempty]
    · have hgreatest := hb.min_isGreatest hlower
      have hgreatest' := hc.min_isGreatest hlower
      exact UInt32.le_antisymm (hgreatest'.2 hgreatest.1) (hgreatest.2 hgreatest'.1)
  have hmax : b.max = c.max := by
    rcases upper.eq_empty_or_nonempty with hempty | hupper
    · rw [hb.max_eq_min hempty, hc.max_eq_min hempty, hmin]
    · obtain ⟨n, hleast, hn⟩ := hb.max_eq_max hupper
      obtain ⟨n', hleast', hn'⟩ := hc.max_eq_max hupper
      rw [hn, hn', hmin, UInt32.le_antisymm (hleast.2 hleast'.1) (hleast'.2 hleast.1)]
  exact congrArg₂ CardinalityBound.mk hmin hmax

/-- What restrictions leave is the tightest interval between what they state. -/
theorem isTightest_ofRestrictions (rs : List CardinalityRestriction) :
    IsTightest {n | n ∈ rs.filterMap lowerOf} {n | n ∈ rs.filterMap upperOf}
      (ofRestrictions rs) where
  min_isGreatest := fun ⟨n, hn⟩ => by
    obtain ⟨m, hm, hgreatest⟩ := exists_largest? hn
    simp only [ofRestrictions, hm]
    exact hgreatest
  min_eq_zero hempty := by
    simp only [ofRestrictions, List.setOfPred_mem_eq_empty_iff.1 hempty]
    rfl
  max_eq_max := fun ⟨n, hn⟩ => by
    obtain ⟨m, hm, hleast⟩ := exists_smallest? hn
    refine ⟨m, hleast, ?_⟩
    simp only [ofRestrictions, hm]
    exact ite_lt_eq_max _ _
  max_eq_min hempty := by
    simp only [ofRestrictions, List.setOfPred_mem_eq_empty_iff.1 hempty]
    exact ite_self _

/-- The interval of sums, or that of larger ends. -/
def join (op : JoinOperation) (b c : CardinalityBound) : CardinalityBound :=
  ⟨op.apply b.min c.min, op.apply b.max c.max⟩

section Join

variable (op : JoinOperation)

instance : Commutative (join op) where
  comm b c := by rw [join, join, op.apply_comm, op.apply_comm b.max]

instance : Associative (join op) where
  assoc b c d := by simp only [join, op.apply_assoc]

instance : IdempotentOp (join .max) where
  idempotent b := by rw [join, JoinOperation.apply_max_self, JoinOperation.apply_max_self]

theorem join_zero (b : CardinalityBound) : join op b ⟨0, 0⟩ = b := by
  rw [join, op.apply_zero, op.apply_zero]

theorem zero_join (b : CardinalityBound) : join op ⟨0, 0⟩ b = b :=
  (Commutative.comm ..).trans (join_zero op b)

end Join

end CardinalityBound

/-! ### Maps -/

namespace BoundMap

open CardinalityBound

variable {rs rs' : List CardinalityRestriction} {q : Model} {op : JoinOperation} {a b c : BoundMap}
  {x : CardinalityBound}

/-- The lower limits that restrictions state for a class. -/
def lowerLimits (rs : List CardinalityRestriction) (q : Model) : Set UInt32 :=
  {n | ∃ r ∈ rs, r.qualification = q ∧ (r.kind = .min ∨ r.kind = .exact) ∧ r.cardinality = n}

/-- The upper limits that restrictions state for a class. -/
def upperLimits (rs : List CardinalityRestriction) (q : Model) : Set UInt32 :=
  {n | ∃ r ∈ rs, r.qualification = q ∧ (r.kind = .max ∨ r.kind = .exact) ∧ r.cardinality = n}

theorem setOf_mem_filterMap (f : CardinalityRestriction → Option UInt32) :
    {n | n ∈ (rs.filter (·.qualification == q)).filterMap f} =
      {n | ∃ r ∈ rs, r.qualification = q ∧ f r = some n} := by
  ext n
  simp only [Set.mem_ofPred_eq, List.mem_filterMap, List.mem_filter, beq_iff_eq, and_assoc]

theorem lowerLimits_eq (rs : List CardinalityRestriction) (q : Model) :
    lowerLimits rs q = {n | n ∈ (rs.filter (·.qualification == q)).filterMap lowerOf} := by
  simp only [setOf_mem_filterMap, lowerOf_eq_some_iff]
  rfl

theorem upperLimits_eq (rs : List CardinalityRestriction) (q : Model) :
    upperLimits rs q = {n | n ∈ (rs.filter (·.qualification == q)).filterMap upperOf} := by
  simp only [setOf_mem_filterMap, upperOf_eq_some_iff]
  rfl

theorem get?_ofRestrictions (rs : List CardinalityRestriction) (q : Model) :
    (BoundMap.ofRestrictions rs).get? q = if ∃ r ∈ rs, r.qualification = q then
      some (.ofRestrictions (rs.filter (·.qualification == q))) else none := by
  simp only [BoundMap.ofRestrictions, OrderedMap.get?_tabulate, OrderedSet.mem_ofList,
    List.mem_map]

/-- The classes that restrictions mention have an interval each, the tightest between the limits
that are stated for them; other classes have none. -/
theorem get?_ofRestrictions_iff : (BoundMap.ofRestrictions rs).get? q = some x ↔
    (∃ r ∈ rs, r.qualification = q) ∧ IsTightest (lowerLimits rs q) (upperLimits rs q) x := by
  have htightest := isTightest_ofRestrictions (rs.filter (·.qualification == q))
  rw [← lowerLimits_eq, ← upperLimits_eq] at htightest
  rw [get?_ofRestrictions]
  by_cases hq : ∃ r ∈ rs, r.qualification = q
  · rw [if_pos hq, Option.some.injEq]
    exact ⟨fun hx => ⟨hq, hx ▸ htightest⟩, fun hx => htightest.unique hx.2⟩
  · rw [if_neg hq]
    exact ⟨fun hx => (nomatch hx), fun hx => absurd hx.1 hq⟩

/-- Neither the order nor the repetition of restrictions matters. -/
theorem ofRestrictions_congr (h : ∀ r, r ∈ rs ↔ r ∈ rs') :
    BoundMap.ofRestrictions rs = .ofRestrictions rs' := by
  refine OrderedMap.ext_get? fun q => Option.ext fun x => ?_
  simp only [get?_ofRestrictions_iff, lowerLimits, upperLimits, h]

/-- A joined map reads class by class; a class that one side lacks is as on the other. -/
theorem get?_join :
    (a.join op b).get? q = (a.get? q).merge (CardinalityBound.join op) (b.get? q) := by
  have hget : (a.join op b).get? q = if (a.get? q).isSome ∨ (b.get? q).isSome then
      some (.join op ((a.get? q).getD ⟨0, 0⟩) ((b.get? q).getD ⟨0, 0⟩)) else none := by
    simp only [join, OrderedMap.get?_tabulate, OrderedSet.mem_union, OrderedMap.mem_keys]
    rfl
  rw [hget]
  cases a.get? q with
  | none =>
    cases b.get? q with
    | none => rfl
    | some y => simp [zero_join]
  | some x =>
    cases b.get? q with
    | none => simp [join_zero]
    | some y => rfl

theorem join_comm (op : JoinOperation) (a b : BoundMap) : a.join op b = b.join op a :=
  OrderedMap.ext_get? fun q => by
    rw [get?_join, get?_join]
    exact (Option.commutative_merge _).comm _ _

theorem join_assoc (op : JoinOperation) (a b c : BoundMap) :
    (a.join op b).join op c = a.join op (b.join op c) :=
  OrderedMap.ext_get? fun q => by
    simp only [get?_join]
    exact (Option.associative_merge _).assoc _ _ _

theorem join_empty (op : JoinOperation) (a : BoundMap) : a.join op .empty = a :=
  OrderedMap.ext_get? fun q => by
    rw [get?_join, OrderedMap.get?_empty, Option.merge_none_right]

theorem empty_join (op : JoinOperation) (a : BoundMap) : BoundMap.join op .empty a = a := by
  rw [join_comm, join_empty]

theorem join_max_self (a : BoundMap) : a.join .max a = a :=
  OrderedMap.ext_get? fun q => by
    rw [get?_join]
    exact (Option.idempotentOp_merge _).idempotent _

/-- Whether no interval ends before it starts. -/
def IsProper (a : BoundMap) : Prop := ∀ q x, a.get? q = some x → x.min ≤ x.max

theorem isProper_ofRestrictions (rs : List CardinalityRestriction) :
    (BoundMap.ofRestrictions rs).IsProper := fun _ _ hx =>
  (get?_ofRestrictions_iff.1 hx).2.min_le_max

theorem IsProper.join (ha : a.IsProper) (hb : b.IsProper) (op : JoinOperation) :
    (a.join op b).IsProper := by
  intro q x hx
  rw [get?_join, Option.merge_eq_some_iff] at hx
  rcases hx with ⟨hx, -⟩ | ⟨-, hx⟩ | ⟨y, z, hy, hz, rfl⟩
  · exact ha q x hx
  · exact hb q x hx
  · exact op.apply_mono (ha q y hy) (hb q z hz)

end BoundMap
end Muster
