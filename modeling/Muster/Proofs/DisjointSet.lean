import Mathlib.Logic.Relation
import Mathlib.Tactic
import Muster.DisjointSet

/-!
Disjoint sets are right: `find` reaches a root, two elements have one root just if unions link
them, and taking back the last union gives the whole structure back.

A root hangs below another only if its set is not larger, so sizes double along every parent step
(`IsForest.size_double`). That bounds the paths, and with them the fuel of `find`. `IsPartition`
adds that roots count their sets and `components` counts the roots.

Main statements: `find_union_eq_iff`, `isPartition_union`, `components_union`,
`undoLast_union`, `Represents.union`, `components_le_length`.
-/

namespace Muster

open Relation (EqvGen)

/-- Members of a list that satisfy one or the other of two properties that exclude each other. -/
theorem countP_or {α : Type} {p q r : α → Bool} {xs : List α}
    (hr : ∀ x ∈ xs, r x = (p x || q x)) (hpq : ∀ x ∈ xs, ¬ (p x ∧ q x)) :
    xs.countP r = xs.countP p + xs.countP q := by
  induction xs with
  | nil => rfl
  | cons x xs ih =>
    have ih := ih (fun y hy => hr y (List.mem_cons_of_mem _ hy))
      (fun y hy => hpq y (List.mem_cons_of_mem _ hy))
    have hx := hr x List.mem_cons_self
    have hnot := hpq x List.mem_cons_self
    simp only [List.countP_cons, ih, hx]
    cases hp : p x <;> cases hq : q x <;> simp_all <;> omega

/-- A map that takes related elements to equivalent ones takes equivalent elements to equivalent
ones. -/
theorem eqvGen_map {α β : Type} {r : α → α → Prop} {r' : β → β → Prop} {g : α → β}
    (hg : ∀ a b, r a b → EqvGen r' (g a) (g b)) {a b : α} (h : EqvGen r a b) :
    EqvGen r' (g a) (g b) := by
  induction h with
  | rel _ _ h => exact hg _ _ h
  | refl => exact .refl _
  | symm _ _ _ ih => exact ih.symm
  | trans _ _ _ _ _ ih ih' => exact ih.trans _ _ _ ih'

/-- A property that related elements share is shared by equivalent ones. -/
theorem eqvGen_iff {α : Type} {r : α → α → Prop} {P : α → Prop} (hP : ∀ a b, r a b → (P a ↔ P b))
    {a b : α} (h : EqvGen r a b) : P a ↔ P b := by
  induction h with
  | rel _ _ h => exact hP _ _ h
  | refl => exact Iff.rfl
  | symm _ _ _ ih => exact ih.symm
  | trans _ _ _ _ _ ih ih' => exact ih.trans ih'

/-- One more pair links what it joins, and no more than that. -/
theorem eqvGen_or_iff {α : Type} {r : α → α → Prop} {a b x y : α} :
    EqvGen (fun i j => r i j ∨ (i = a ∧ j = b)) x y ↔ EqvGen r x y ∨
      (EqvGen r x a ∧ EqvGen r y b) ∨ (EqvGen r x b ∧ EqvGen r y a) := by
  have hmono : ∀ {i j}, EqvGen r i j → EqvGen (fun i j => r i j ∨ (i = a ∧ j = b)) i j :=
    fun h => EqvGen.mono (fun _ _ => .inl) _ _ h
  have hpair : EqvGen (fun i j => r i j ∨ (i = a ∧ j = b)) a b := .rel _ _ (.inr ⟨rfl, rfl⟩)
  constructor
  · intro h
    induction h with
    | rel i j hij =>
      rcases hij with hij | ⟨rfl, rfl⟩
      · exact .inl (.rel _ _ hij)
      · exact .inr (.inl ⟨.refl _, .refl _⟩)
    | refl i => exact .inl (.refl i)
    | symm i j _ ih =>
      rcases ih with h | ⟨hi, hj⟩ | ⟨hi, hj⟩
      · exact .inl h.symm
      · exact .inr (.inr ⟨hj, hi⟩)
      · exact .inr (.inl ⟨hj, hi⟩)
    | trans i j k _ _ ih ih' => grind [EqvGen.symm, EqvGen.trans]
  · rintro (h | ⟨hx, hy⟩ | ⟨hx, hy⟩)
    · exact hmono h
    · exact (hmono hx).trans _ _ _ (hpair.trans _ _ _ (hmono hy).symm)
    · exact (hmono hx).trans _ _ _ (hpair.symm.trans _ _ _ (hmono hy).symm)

theorem getD_setIfInBounds {α : Type} (xs : Array α) (i j : Nat) (v d : α) :
    (xs.setIfInBounds i v).getD j d = if i = j ∧ j < xs.size then v else xs.getD j d := by
  simp only [Array.getD_eq_getD_getElem?, Array.getElem?_setIfInBounds]
  by_cases hij : i = j
  · subst hij
    by_cases hi : i < xs.size
    · simp [hi]
    · simp [hi]
  · simp [hij]

namespace DisjointSet

/-- The parent of `x`; an element outside the forest is its own. -/
def parentOf (s : DisjointSet) (x : Nat) : Nat := s.parent.getD x x

/-- The size noted for `x`, right at the roots. -/
def sizeAt (s : DisjointSet) (x : Nat) : Nat := s.size.getD x 0

/-- Parents stay in range and sizes double along every parent step. -/
structure IsForest (s : DisjointSet) : Prop where
  size_size : s.size.size = s.length
  parentOf_lt : ∀ x < s.length, s.parentOf x < s.length
  size_pos : ∀ x < s.length, 0 < s.sizeAt x
  size_le : ∀ x < s.length, s.sizeAt x ≤ s.length
  size_double : ∀ x < s.length, s.parentOf x ≠ x → 2 * s.sizeAt x ≤ s.sizeAt (s.parentOf x)

theorem parentOf_of_length_le {s : DisjointSet} {x : Nat} (h : s.length ≤ x) :
    s.parentOf x = x := by
  rw [parentOf, Array.getD_eq_getD_getElem?, Array.getElem?_eq_none h]
  rfl

/-! ### Climbing to the root -/

theorem climb_succ (s : DisjointSet) (k x : Nat) :
    climb s.parent (k + 1) x = climb s.parent k (s.parentOf x) := by
  show (if s.parentOf x = x then x else climb s.parent k (s.parentOf x)) = _
  split
  · rename_i h
    rw [h]
    cases k with
    | zero => rfl
    | succ k => exact (if_pos h).symm
  · rfl

theorem climb_of_root {s : DisjointSet} {x : Nat} (h : s.parentOf x = x) :
    ∀ k, climb s.parent k x = x
  | 0 => rfl
  | k + 1 => by rw [climb_succ, h, climb_of_root h k]

theorem climb_succ_of_root {s : DisjointSet} : ∀ (k x : Nat),
    s.parentOf (climb s.parent k x) = climb s.parent k x →
    climb s.parent (k + 1) x = climb s.parent k x
  | 0, x, h => by rw [climb_succ]; exact h
  | k + 1, x, h => by
    rw [climb_succ] at h ⊢
    rw [climb_succ_of_root k _ h, climb_succ]

theorem climb_lt {s : DisjointSet} (hs : s.IsForest) :
    ∀ (k : Nat) {x : Nat}, x < s.length → climb s.parent k x < s.length
  | 0, _, hx => hx
  | k + 1, x, hx => by
    rw [climb_succ]
    exact climb_lt hs k (hs.parentOf_lt x hx)

/-- A climb ends at a root as soon as its fuel exceeds the number of times a size can double. -/
theorem parentOf_climb {s : DisjointSet} (hs : s.IsForest) :
    ∀ (k : Nat) {x : Nat}, x < s.length → s.length < 2 ^ k * s.sizeAt x →
      s.parentOf (climb s.parent k x) = climb s.parent k x
  | 0, x, hx, hk => by
    have := hs.size_le x hx
    omega
  | k + 1, x, hx, hk => by
    by_cases hroot : s.parentOf x = x
    · rw [climb_of_root hroot, hroot]
    · rw [climb_succ]
      refine parentOf_climb hs k (hs.parentOf_lt x hx) (lt_of_lt_of_le hk ?_)
      rw [pow_succ, mul_assoc]
      exact Nat.mul_le_mul_left _ (hs.size_double x hx hroot)

theorem find_of_root {s : DisjointSet} {x : Nat} (h : s.parentOf x = x) : s.find x = x :=
  climb_of_root h _

theorem find_lt {s : DisjointSet} (hs : s.IsForest) {x : Nat} (hx : x < s.length) :
    s.find x < s.length := climb_lt hs _ hx

theorem parentOf_find {s : DisjointSet} (hs : s.IsForest) (x : Nat) :
    s.parentOf (s.find x) = s.find x := by
  by_cases hx : x < s.length
  · refine parentOf_climb hs _ hx ?_
    calc s.length < 2 ^ s.length := Nat.lt_two_pow_self
      _ ≤ 2 ^ s.length * s.sizeAt x := Nat.le_mul_of_pos_right _ (hs.size_pos x hx)
  · have hroot := parentOf_of_length_le (Nat.le_of_not_lt hx)
    rw [find_of_root hroot, hroot]

theorem find_parentOf {s : DisjointSet} (hs : s.IsForest) (x : Nat) :
    s.find (s.parentOf x) = s.find x := by
  have h := climb_succ_of_root s.length x (parentOf_find hs x)
  rwa [climb_succ] at h

/-- `find` is the only function that fixes the roots and does not change along a parent step. -/
theorem eq_find {s : DisjointSet} (hs : s.IsForest) {g : Nat → Nat}
    (hroot : ∀ x, s.parentOf x = x → g x = x) (hstep : ∀ x, g (s.parentOf x) = g x) (x : Nat) :
    g x = s.find x := by
  have hclimb : ∀ k y, g (climb s.parent k y) = g y := by
    intro k
    induction k with
    | zero => exact fun y => rfl
    | succ k ih => exact fun y => by rw [climb_succ, ih, hstep]
  rw [← hroot _ (parentOf_find hs x)]
  exact (hclimb _ x).symm

/-! ### Counting -/

/-- A forest whose roots count their sets, and whose roots are counted. -/
structure IsPartition (s : DisjointSet) : Prop extends IsForest s where
  size_root : ∀ r < s.length, s.parentOf r = r →
    s.sizeAt r = (List.range s.length).countP (s.find · == r)
  components_eq : s.components = (List.range s.length).countP fun x => s.parentOf x == x

theorem sizeAt_add_le {s : DisjointSet} (hs : s.IsPartition) {a b : Nat} (ha : a < s.length)
    (hb : b < s.length) (hra : s.parentOf a = a) (hrb : s.parentOf b = b) (hab : a ≠ b) :
    s.sizeAt a + s.sizeAt b ≤ s.length := by
  rw [hs.size_root a ha hra, hs.size_root b hb hrb,
    ← countP_or (r := fun x => s.find x == a || s.find x == b) (fun _ _ => rfl)]
  · exact (List.countP_le_length).trans (by simp)
  · rintro x - ⟨h1, h2⟩
    exact hab ((beq_iff_eq.1 h1).symm.trans (beq_iff_eq.1 h2))

theorem mem_roots {s : DisjointSet} {x : Nat} :
    x ∈ (List.range s.length).filter (fun x => s.parentOf x == x) ↔
      x < s.length ∧ s.parentOf x = x := by
  rw [List.mem_filter, List.mem_range, beq_iff_eq]

theorem two_le_components {s : DisjointSet} (hs : s.IsPartition) {a b : Nat} (ha : a < s.length)
    (hb : b < s.length) (hab : s.find a ≠ s.find b) : 2 ≤ s.components := by
  rw [hs.components_eq, List.countP_eq_length_filter]
  have hsub : [s.find a, s.find b] ⊆ (List.range s.length).filter fun x => s.parentOf x == x := by
    intro r hr
    rcases List.mem_cons.1 hr with rfl | hr
    · exact mem_roots.2 ⟨find_lt hs.toIsForest ha, parentOf_find hs.toIsForest a⟩
    · rw [List.mem_singleton.1 hr]
      exact mem_roots.2 ⟨find_lt hs.toIsForest hb, parentOf_find hs.toIsForest b⟩
  have hnodup : [s.find a, s.find b].Nodup := by simpa using hab
  exact (hnodup.subperm hsub).length_le

/-- There is at most one set just if all elements have one root. -/
theorem components_le_one_iff {s : DisjointSet} (hs : s.IsPartition) :
    s.components ≤ 1 ↔ ∀ a < s.length, ∀ b < s.length, s.find a = s.find b := by
  constructor
  · intro h a ha b hb
    by_contra hab
    have := two_le_components hs ha hb hab
    omega
  · intro h
    rw [hs.components_eq, List.countP_eq_length_filter]
    have hsub : ((List.range s.length).filter fun x => s.parentOf x == x) ⊆ [s.find 0] := by
      intro r hr
      obtain ⟨hr, hroot⟩ := mem_roots.1 hr
      rw [List.mem_singleton, ← h r hr 0 (by omega), find_of_root hroot]
    have hnodup : ((List.range s.length).filter fun x => s.parentOf x == x).Nodup :=
      List.nodup_range.filter _
    exact (hnodup.subperm hsub).length_le

/-! ### Hanging one root below another -/

section Attach

variable {s : DisjointSet} {c p : Nat}

@[simp] theorem length_attach : (s.attach c p).length = s.length := by simp [attach, length]

theorem parentOf_attach (hc : c < s.length) (x : Nat) :
    (s.attach c p).parentOf x = if x = c then p else s.parentOf x := by
  rw [parentOf, attach, getD_setIfInBounds]
  by_cases hx : x = c
  · subst hx
    rw [if_pos ⟨rfl, hc⟩, if_pos rfl]
  · rw [if_neg (fun h => hx h.1.symm), if_neg hx]
    rfl

theorem sizeAt_attach (hsize : s.size.size = s.length) (hp : p < s.length) (x : Nat) :
    (s.attach c p).sizeAt x = if x = p then s.sizeAt p + s.sizeAt c else s.sizeAt x := by
  rw [sizeAt, attach, getD_setIfInBounds]
  by_cases hx : x = p
  · subst hx
    rw [if_pos ⟨rfl, hsize ▸ hp⟩, if_pos rfl]
    rfl
  · rw [if_neg (fun h => hx h.1.symm), if_neg hx]
    rfl

variable (hs : s.IsPartition) (hc : c < s.length) (hp : p < s.length) (hrc : s.parentOf c = c)
  (hrp : s.parentOf p = p) (hcp : c ≠ p) (hle : s.sizeAt c ≤ s.sizeAt p)
include hs hc hp hrc hrp hcp hle

theorem isForest_attach : (s.attach c p).IsForest where
  size_size := by simpa [attach, length] using hs.size_size
  parentOf_lt x hx := by
    rw [length_attach] at hx ⊢
    rw [parentOf_attach hc]
    split
    · exact hp
    · exact hs.parentOf_lt x hx
  size_pos x hx := by
    rw [length_attach] at hx
    rw [sizeAt_attach hs.size_size hp]
    split
    · exact Nat.add_pos_left (hs.size_pos p hp) _
    · exact hs.size_pos x hx
  size_le x hx := by
    rw [length_attach] at hx ⊢
    rw [sizeAt_attach hs.size_size hp]
    split
    · exact sizeAt_add_le hs hp hc hrp hrc hcp.symm
    · exact hs.size_le x hx
  size_double x hx hroot := by
    rw [length_attach] at hx
    rw [parentOf_attach hc] at hroot ⊢
    rw [sizeAt_attach hs.size_size hp, sizeAt_attach hs.size_size hp]
    by_cases hxc : x = c
    · subst hxc
      rw [if_neg hcp, if_pos rfl, if_pos rfl]
      omega
    · rw [if_neg hxc] at hroot ⊢
      have hxp : x ≠ p := fun h => hroot (h ▸ hrp)
      rw [if_neg hxp]
      have hdouble := hs.size_double x hx hroot
      split
      · rename_i h
        rw [h] at hdouble
        omega
      · exact hdouble

theorem find_attach (x : Nat) :
    (s.attach c p).find x = if s.find x = c then p else s.find x := by
  have hf := isForest_attach hs hc hp hrc hrp hcp hle
  have hfc : s.find c = c := find_of_root hrc
  have hfp : s.find p = p := find_of_root hrp
  refine (eq_find hf (g := fun x => if s.find x = c then p else s.find x) ?_ ?_ x).symm
  · intro y hy
    rw [parentOf_attach hc] at hy
    by_cases hyc : y = c
    · rw [if_pos hyc] at hy
      exact absurd (hyc.symm.trans hy.symm) hcp
    · rw [if_neg hyc] at hy
      rw [find_of_root hy, if_neg hyc]
  · intro y
    rw [parentOf_attach hc]
    by_cases hyc : y = c
    · rw [if_pos hyc, hyc, hfp, hfc, if_neg hcp.symm, if_pos rfl]
    · rw [if_neg hyc, find_parentOf hs.toIsForest]

theorem isPartition_attach : (s.attach c p).IsPartition where
  toIsForest := isForest_attach hs hc hp hrc hrp hcp hle
  size_root r hr hroot := by
    rw [length_attach] at hr
    rw [parentOf_attach hc] at hroot
    have hrc' : r ≠ c := by
      rintro rfl
      rw [if_pos rfl] at hroot
      exact hcp hroot.symm
    rw [if_neg hrc'] at hroot
    rw [sizeAt_attach hs.size_size hp, length_attach]
    by_cases hrp' : r = p
    · subst hrp'
      rw [if_pos rfl, hs.size_root _ hr hroot, hs.size_root c hc hrc]
      refine (countP_or (fun x _ => ?_) fun x _ h => ?_).symm
      · rw [find_attach hs hc hp hrc hrp hcp hle]
        by_cases hx : s.find x = c <;> simp [hx]
      · exact hcp ((beq_iff_eq.1 h.2).symm.trans (beq_iff_eq.1 h.1))
    · rw [if_neg hrp', hs.size_root r hr hroot]
      refine List.countP_congr fun x _ => ?_
      rw [find_attach hs hc hp hrc hrp hcp hle, beq_iff_eq, beq_iff_eq]
      by_cases hx : s.find x = c
      · rw [if_pos hx, hx]
        exact ⟨fun h => absurd h.symm hrc', fun h => absurd h.symm hrp'⟩
      · rw [if_neg hx]
  components_eq := by
    have hsplit : (List.range s.length).countP (fun x => s.parentOf x == x) =
        (List.range s.length).countP (fun x => (s.attach c p).parentOf x == x) +
          (List.range s.length).countP (fun x => x == c) := by
      refine countP_or (fun x _ => ?_) fun x _ h => ?_
      · rw [parentOf_attach hc]
        by_cases hx : x = c
        · simp [hx, hrc]
        · simp [hx]
      · have hx : x = c := beq_iff_eq.1 h.2
        have hroot := beq_iff_eq.1 h.1
        rw [parentOf_attach hc, if_pos hx] at hroot
        exact hcp (hx.symm.trans hroot.symm)
    have hone : (List.range s.length).countP (fun x => x == c) = 1 :=
      List.count_eq_one_of_mem List.nodup_range (List.mem_range.2 hc)
    rw [length_attach]
    show s.components - 1 = _
    rw [hs.components_eq, hsplit, hone, Nat.add_sub_cancel]

theorem undoLast_attach : (s.attach c p).undoLast = (true, s) := by
  have hcomp : 1 ≤ s.components := by
    have := two_le_components hs hc hp (by rwa [find_of_root hrc, find_of_root hrp])
    omega
  have hcsize : c < s.parent.size := hc
  have hpsize : p < s.size.size := hs.size_size.symm ▸ hp
  obtain ⟨parent, size, components, history⟩ := s
  simp only [parentOf, sizeAt, attach, undoLast, length] at *
  simp only [Prod.mk.injEq, DisjointSet.mk.injEq, true_and, and_true]
  refine ⟨?_, ?_, by omega⟩
  · refine Array.ext_getElem? fun i => ?_
    simp only [Array.getElem?_setIfInBounds, Array.size_setIfInBounds]
    by_cases hi : c = i
    · subst hi
      rw [if_pos rfl, if_pos hcsize, Array.getElem?_eq_getElem hcsize]
      simpa [Array.getD, hcsize] using hrc.symm
    · rw [if_neg hi, if_neg hi]
  · refine Array.ext_getElem? fun i => ?_
    simp only [getD_setIfInBounds, Array.getElem?_setIfInBounds, Array.size_setIfInBounds]
    by_cases hi : p = i
    · subst hi
      rw [if_pos rfl, if_pos hpsize, if_pos ⟨trivial, hpsize⟩,
        if_neg (fun h => hcp h.1.symm), Nat.add_sub_cancel, Array.getElem?_eq_getElem hpsize]
      simp [Array.getD, hpsize]
    · rw [if_neg hi, if_neg hi]

end Attach

/-! ### Unions -/

/-- A union changes nothing, or hangs the root of a set that is not larger below the other root. -/
theorem union_cases {s : DisjointSet} (hs : s.IsPartition) {a b : Nat} (ha : a < s.length)
    (hb : b < s.length) :
    (s.find a = s.find b ∧ s.union a b = (false, s)) ∨
    ∃ c p, ((c = s.find a ∧ p = s.find b) ∨ (c = s.find b ∧ p = s.find a)) ∧ c < s.length ∧
      p < s.length ∧ s.parentOf c = c ∧ s.parentOf p = p ∧ c ≠ p ∧ s.sizeAt c ≤ s.sizeAt p ∧
      s.union a b = (true, s.attach c p) := by
  have hra := find_lt hs.toIsForest ha
  have hrb := find_lt hs.toIsForest hb
  have ha' := parentOf_find hs.toIsForest a
  have hb' := parentOf_find hs.toIsForest b
  by_cases heq : s.find a = s.find b
  · exact .inl ⟨heq, by simp [union, heq]⟩
  · right
    by_cases hlt : s.sizeAt (s.find a) < s.sizeAt (s.find b)
    · refine ⟨_, _, .inl ⟨rfl, rfl⟩, hra, hrb, ha', hb', heq, hlt.le, ?_⟩
      simp only [union, if_neg heq]
      exact if_pos hlt
    · refine ⟨_, _, .inr ⟨rfl, rfl⟩, hrb, hra, hb', ha', Ne.symm heq, Nat.le_of_not_lt hlt, ?_⟩
      simp only [union, if_neg heq]
      exact if_neg hlt

section Union

variable {s : DisjointSet} (hs : s.IsPartition) {a b : Nat} (ha : a < s.length)
  (hb : b < s.length)
include hs ha hb

theorem isPartition_union : (s.union a b).2.IsPartition := by
  rcases union_cases hs ha hb with ⟨-, h⟩ | ⟨c, p, -, hc, hp, hrc, hrp, hcp, hle, h⟩ <;> rw [h]
  · exact hs
  · exact isPartition_attach hs hc hp hrc hrp hcp hle

theorem length_union : (s.union a b).2.length = s.length := by
  rcases union_cases hs ha hb with ⟨-, h⟩ | ⟨c, p, -, hc, hp, hrc, hrp, hcp, hle, h⟩ <;> rw [h]
  exact length_attach

theorem fst_union : (s.union a b).1 = !s.same a b := by
  rcases union_cases hs ha hb with ⟨heq, h⟩ | ⟨c, p, hroots, -, -, -, -, hcp, -, h⟩ <;> rw [h]
  · simp [same, heq]
  · have hne : s.find a ≠ s.find b := by
      rcases hroots with ⟨rfl, rfl⟩ | ⟨rfl, rfl⟩
      · exact hcp
      · exact hcp.symm
    simp [same, hne]

/-- A union merges the sets of its two elements and no others. -/
theorem find_union_eq_iff (x y : Nat) :
    (s.union a b).2.find x = (s.union a b).2.find y ↔
      s.find x = s.find y ∨ (s.find x = s.find a ∧ s.find y = s.find b) ∨
        (s.find x = s.find b ∧ s.find y = s.find a) := by
  rcases union_cases hs ha hb with ⟨heq, h⟩ | ⟨c, p, hroots, hc, hp, hrc, hrp, hcp, hle, h⟩ <;>
    rw [h]
  · rw [heq]
    constructor
    · exact .inl
    · rintro (h | ⟨h1, h2⟩ | ⟨h1, h2⟩)
      · exact h
      · exact h1.trans h2.symm
      · exact h1.trans h2.symm
  · rw [find_attach hs hc hp hrc hrp hcp hle, find_attach hs hc hp hrc hrp hcp hle]
    rcases hroots with ⟨rfl, rfl⟩ | ⟨rfl, rfl⟩ <;> grind

/-- A union that merges two sets leaves one less. -/
theorem components_union :
    (s.union a b).2.components = if s.find a = s.find b then s.components else s.components - 1 := by
  rcases union_cases hs ha hb with ⟨heq, h⟩ | ⟨c, p, hroots, -, -, -, -, hcp, -, h⟩ <;> rw [h]
  · rw [if_pos heq]
  · have hne : s.find a ≠ s.find b := by
      rcases hroots with ⟨rfl, rfl⟩ | ⟨rfl, rfl⟩
      · exact hcp
      · exact hcp.symm
    rw [if_neg hne]
    rfl

/-- Taking back a union that merged two sets gives the structure before it. -/
theorem undoLast_union (hne : s.find a ≠ s.find b) : (s.union a b).2.undoLast = (true, s) := by
  rcases union_cases hs ha hb with ⟨heq, -⟩ | ⟨c, p, -, hc, hp, hrc, hrp, hcp, hle, h⟩
  · exact absurd heq hne
  · rw [h]
    exact undoLast_attach hs hc hp hrc hrp hcp hle

end Union

theorem parentOf_singletons (n x : Nat) : (singletons n).parentOf x = x := by
  rw [parentOf, singletons, Array.getD_eq_getD_getElem?]
  by_cases hx : x < n
  · simp [hx]
  · simp [hx]

@[simp] theorem length_singletons (n : Nat) : (singletons n).length = n := by
  simp [singletons, length]

@[simp] theorem find_singletons (n x : Nat) : (singletons n).find x = x :=
  find_of_root (parentOf_singletons n x)

theorem sizeAt_singletons {n x : Nat} (hx : x < n) : (singletons n).sizeAt x = 1 := by
  simp [sizeAt, singletons, hx]

theorem isPartition_singletons (n : Nat) : (singletons n).IsPartition where
  size_size := by simp [singletons, length]
  parentOf_lt x hx := by rwa [parentOf_singletons]
  size_pos x hx := by
    rw [length_singletons] at hx
    rw [sizeAt_singletons hx]
    decide
  size_le x hx := by
    rw [length_singletons] at hx ⊢
    rw [sizeAt_singletons hx]
    omega
  size_double x _ h := absurd (parentOf_singletons n x) h
  size_root r hr _ := by
    rw [length_singletons] at hr
    rw [sizeAt_singletons hr, length_singletons]
    simp only [find_singletons]
    exact (List.count_eq_one_of_mem List.nodup_range (List.mem_range.2 hr)).symm
  components_eq := by
    simp only [parentOf_singletons, length_singletons, beq_self_eq_true, List.countP_true,
      List.length_range]
    rfl

/-! ### The classes -/

/-- The sets are the classes of the equivalence that `r` generates. -/
def Represents (s : DisjointSet) (r : Nat → Nat → Prop) : Prop :=
  ∀ i j, s.find i = s.find j ↔ EqvGen r i j

theorem represents_singletons (n : Nat) : (singletons n).Represents fun _ _ => False := by
  intro i j
  rw [find_singletons, find_singletons]
  exact ⟨fun h => h ▸ .refl i, fun h => (eqvGen_iff (P := (· = j)) (fun _ _ h => h.elim) h).2 rfl⟩

theorem Represents.congr {s : DisjointSet} {r r' : Nat → Nat → Prop} (h : s.Represents r)
    (hr : ∀ i j, r i j → EqvGen r' i j) (hr' : ∀ i j, r' i j → EqvGen r i j) :
    s.Represents r' :=
  fun i j => (h i j).trans ⟨eqvGen_map (g := id) hr, eqvGen_map (g := id) hr'⟩

/-- After a union the sets are the classes of the relation with one more pair. -/
theorem Represents.union {s : DisjointSet} {r : Nat → Nat → Prop} (h : s.Represents r)
    (hs : s.IsPartition) {a b : Nat} (ha : a < s.length) (hb : b < s.length) :
    (s.union a b).2.Represents fun i j => r i j ∨ (i = a ∧ j = b) := by
  intro i j
  rw [find_union_eq_iff hs ha hb, eqvGen_or_iff, h i j, h i a, h j b, h i b, h j a]

theorem represents_self (s : DisjointSet) : s.Represents fun i j => s.find i = s.find j :=
  fun i j => ⟨fun h => .rel _ _ h, fun h =>
    (eqvGen_iff (P := fun x => s.find x = s.find j) (fun _ _ h => by rw [h]) h).2 rfl⟩

/-! ### Unions of a list of pairs -/

/-- Merges the sets of each pair. -/
def unionAll (s : DisjointSet) (pairs : List (Nat × Nat)) : DisjointSet :=
  pairs.foldl (fun s q => (s.union q.1 q.2).2) s

/-- The pairs join elements of `s`. -/
def Holds (s : DisjointSet) (pairs : List (Nat × Nat)) : Prop :=
  ∀ q ∈ pairs, q.1 < s.length ∧ q.2 < s.length

theorem Holds.tail {s : DisjointSet} (hs : s.IsPartition) {q : Nat × Nat}
    {pairs : List (Nat × Nat)} (h : s.Holds (q :: pairs)) : (s.union q.1 q.2).2.Holds pairs := by
  obtain ⟨h1, h2⟩ := h q List.mem_cons_self
  rw [Holds, length_union hs h1 h2]
  exact fun r hr => h r (List.mem_cons_of_mem _ hr)

theorem isPartition_unionAll : ∀ {pairs : List (Nat × Nat)} {s : DisjointSet}, s.IsPartition →
    s.Holds pairs → (s.unionAll pairs).IsPartition ∧ (s.unionAll pairs).length = s.length
  | [], _, hs, _ => ⟨hs, rfl⟩
  | q :: pairs, s, hs, h => by
    obtain ⟨h1, h2⟩ := h q List.mem_cons_self
    have ih := isPartition_unionAll (isPartition_union hs h1 h2) (h.tail hs)
    rw [length_union hs h1 h2] at ih
    exact ih

theorem Represents.unionAll : ∀ {pairs : List (Nat × Nat)} {s : DisjointSet}
    {r : Nat → Nat → Prop}, s.Represents r → s.IsPartition → s.Holds pairs →
    (s.unionAll pairs).Represents fun i j => r i j ∨ (i, j) ∈ pairs
  | [], _, _, hr, _, _ => hr.congr (fun _ _ h => .rel _ _ (.inl h)) fun _ _ h =>
    h.elim (fun h => .rel _ _ h) fun h => by simp at h
  | q :: pairs, s, r, hr, hs, h => by
    obtain ⟨h1, h2⟩ := h q List.mem_cons_self
    have ih := (hr.union hs h1 h2).unionAll (isPartition_union hs h1 h2) (h.tail hs)
    refine ih.congr (fun i j hij => .rel _ _ ?_) fun i j hij => .rel _ _ ?_
    · rcases hij with (hij | ⟨rfl, rfl⟩) | hij
      · exact .inl hij
      · exact .inr List.mem_cons_self
      · exact .inr (List.mem_cons_of_mem _ hij)
    · rcases hij with hij | hij
      · exact .inl (.inl hij)
      · rcases List.mem_cons.1 hij with hij | hij
        · exact .inl (.inr ⟨congrArg Prod.fst hij, congrArg Prod.snd hij⟩)
        · exact .inr hij

/-- Every union leaves at most one set less. -/
theorem components_le_unionAll : ∀ {pairs : List (Nat × Nat)} {s : DisjointSet}, s.IsPartition →
    s.Holds pairs → s.components ≤ (s.unionAll pairs).components + pairs.length
  | [], _, _, _ => Nat.le_refl _
  | q :: pairs, s, hs, h => by
    obtain ⟨h1, h2⟩ := h q List.mem_cons_self
    have ih := components_le_unionAll (isPartition_union hs h1 h2) (h.tail hs)
    have hstep := components_union hs h1 h2
    rw [List.length_cons]
    change _ ≤ ((s.union q.1 q.2).2.unionAll pairs).components + _
    split at hstep <;> omega

/-- Pairs that link all elements are at least as many as there are sets to merge. -/
theorem components_le_length {s : DisjointSet} (hs : s.IsPartition) {pairs : List (Nat × Nat)}
    (h : s.Holds pairs) (hlinked : ∀ i < s.length, ∀ j < s.length,
      EqvGen (fun a b => s.find a = s.find b ∨ (a, b) ∈ pairs) i j) :
    s.components ≤ pairs.length + 1 := by
  obtain ⟨hpart, hlength⟩ := isPartition_unionAll hs h
  have hone : (s.unionAll pairs).components ≤ 1 := by
    refine (components_le_one_iff hpart).2 fun i hi j hj => ?_
    rw [hlength] at hi hj
    exact ((represents_self s).unionAll hs h i j).2 (hlinked i hi j hj)
  have := components_le_unionAll hs h
  omega

end DisjointSet
end Muster
