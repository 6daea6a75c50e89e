import Mathlib.Tactic
import Muster.Pool.Algebra
import Muster.Support.Minimal

/-!
Pools by their counts. A normal pool is told by its counts, so the operations on pools and the order
of pools are stated by counts. The entries of a subset are found among those of the larger pool, in
the same order and with larger counts, so a proper subset has fewer instances and below every pool
with a property there is a least one.

Main statements: `isSubset_iff`, `exists_isSubset_withoutOne`, `sublistForall₂_entries`,
`exists_least_subset`, `ofPairs_eq`, `toNat_count_sumAll`.
-/

namespace Muster.Pool

open Std

variable {p q r : Pool} {m : Model} {c : UInt32}

theorem toNat_pos (h : c ≠ 0) : 0 < c.toNat :=
  Nat.pos_of_ne_zero fun hzero => h (UInt32.toNat_inj.1 hzero)

theorem toNat_lt_exact (c : UInt32) : c.toNat < 2 ^ 53 := c.toNat_lt.trans (by decide)

theorem mem_entries_iff : (m, c) ∈ p.entries ↔ p.counts.get? m = some c :=
  OrderedMap.get?_eq_some_iff.symm

theorem count_eq_of_mem (h : (m, c) ∈ p.entries) : p.count m = c := by
  rw [count, mem_entries_iff.1 h]
  rfl

theorem mem_entries_of_count_ne_zero (h : p.count m ≠ 0) : (m, p.count m) ∈ p.entries := by
  rw [mem_entries_iff]
  rw [count] at h ⊢
  cases hm : p.counts.get? m with
  | none =>
    rw [hm] at h
    exact absurd rfl h
  | some c => rfl

theorem mem_models_iff : m ∈ p.models ↔ ∃ c, (m, c) ∈ p.entries := by
  rw [models, OrderedMap.mem_keys, Option.isSome_iff_exists]
  simp only [mem_entries_iff]

theorem IsNormal.mem_entries_iff (hp : p.IsNormal) :
    (m, c) ∈ p.entries ↔ c ≠ 0 ∧ p.count m = c := by
  constructor
  · exact fun h => ⟨hp _ h, count_eq_of_mem h⟩
  · rintro ⟨hc, rfl⟩
    exact mem_entries_of_count_ne_zero hc

theorem IsNormal.mem_models_iff (hp : p.IsNormal) : m ∈ p.models ↔ p.count m ≠ 0 := by
  refine ⟨fun h => ?_, mem_models_of_count_ne_zero⟩
  obtain ⟨c, hc⟩ := Pool.mem_models_iff.1 h
  rw [count_eq_of_mem hc]
  exact hp _ hc

theorem mem_normalized_entries_iff : (m, c) ∈ p.normalized.entries ↔ c ≠ 0 ∧ p.count m = c := by
  rw [(isNormal_normalized p).mem_entries_iff, count_normalized]

theorem exists_mem_normalized_iff {P : Model × UInt32 → Prop} :
    (∃ e ∈ p.normalized.entries, P e) ↔ ∃ a, p.count a ≠ 0 ∧ P (a, p.count a) := by
  constructor
  · rintro ⟨⟨a, c⟩, he, hP⟩
    obtain ⟨hc, rfl⟩ := mem_normalized_entries_iff.1 he
    exact ⟨a, hc, hP⟩
  · rintro ⟨a, ha, hP⟩
    exact ⟨_, mem_normalized_entries_iff.2 ⟨ha, rfl⟩, hP⟩

theorem distinctModels_normalized (p : Pool) : p.normalized.distinctModels = p.distinctModels := by
  show (p.entries.filter fun e => e.2 != 0).countP _ = p.entries.countP _
  rw [List.countP_filter]
  simp

theorem IsNormal.normalized_eq (hp : p.IsNormal) : p.normalized = p :=
  ext_count (isNormal_normalized p) hp fun _ => count_normalized ..

theorem normalized_congr (h : ∀ m, p.count m = q.count m) : p.normalized = q.normalized :=
  ext_count (isNormal_normalized p) (isNormal_normalized q) fun m => by
    rw [count_normalized, count_normalized, h]

theorem isNormal_iff : p.IsNormal ↔ ∀ m c, p.counts.get? m = some c → c ≠ 0 := by
  simp only [OrderedMap.get?_eq_some_iff]
  exact ⟨fun h m c => h (m, c), fun h e => h e.1 e.2⟩

/-! ### The order of pools -/

theorem isSubset_iff : p.isSubset q = true ↔ ∀ m, p.count m ≤ q.count m := by
  rw [isSubset, List.all_eq_true]
  constructor
  · intro h m
    by_cases hm : p.count m = 0
    · rw [hm]
      exact UInt32.zero_le
    · exact of_decide_eq_true (h _ (mem_entries_of_count_ne_zero hm))
  · rintro h ⟨m, c⟩ he
    have hm := h m
    rw [count_eq_of_mem he] at hm
    exact decide_eq_true hm

theorem isSubset_refl (p : Pool) : p.isSubset p = true :=
  isSubset_iff.2 fun _ => UInt32.le_refl _

theorem isSubset_trans (hpq : p.isSubset q = true) (hqr : q.isSubset r = true) :
    p.isSubset r = true := by
  rw [isSubset_iff] at hpq hqr ⊢
  exact fun m => UInt32.le_trans (hpq m) (hqr m)

theorem count_eq_zero_of_isSubset (h : p.isSubset q = true) (hzero : q.count m = 0) :
    p.count m = 0 := by
  have hle := UInt32.le_iff_toNat_le.1 (isSubset_iff.1 h m)
  rw [hzero, UInt32.toNat_zero] at hle
  exact UInt32.toNat_inj.1 (Nat.le_zero.1 hle)

theorem isSubset_antisymm (hp : p.IsNormal) (hq : q.IsNormal) (hpq : p.isSubset q = true)
    (hqp : q.isSubset p = true) : p = q := by
  rw [isSubset_iff] at hpq hqp
  exact ext_count hp hq fun m => UInt32.le_antisymm (hpq m) (hqp m)

theorem isNull_iff : p.isNull = true ↔ ∀ m, p.count m = 0 := by
  rw [isNull, List.all_eq_true]
  constructor
  · intro h m
    by_contra hm
    exact hm (beq_iff_eq.1 (h _ (mem_entries_of_count_ne_zero hm)))
  · rintro h ⟨m, c⟩ he
    rw [beq_iff_eq, ← h m, count_eq_of_mem he]

theorem count_of_isEmpty (h : p.isEmpty = true) (m : Model) : p.count m = 0 := by
  rw [isEmpty, OrderedMap.isEmpty, List.isEmpty_iff] at h
  by_contra hm
  have hmem := mem_entries_of_count_ne_zero hm
  rw [entries, h] at hmem
  exact List.not_mem_nil hmem

theorem IsNormal.entries_eq_nil (hp : p.IsNormal) (h : ∀ m, p.count m = 0) : p.entries = [] :=
  List.eq_nil_iff_forall_not_mem.2 fun e he => hp e he ((count_eq_of_mem he).symm.trans (h e.1))

theorem IsNormal.isEmpty_iff (hp : p.IsNormal) : p.isEmpty = true ↔ ∀ m, p.count m = 0 := by
  refine ⟨count_of_isEmpty, fun h => ?_⟩
  rw [isEmpty, OrderedMap.isEmpty, List.isEmpty_iff]
  exact hp.entries_eq_nil h

theorem IsNormal.exists_count_ne_zero (hp : p.IsNormal) (h : p.isEmpty = false) :
    ∃ m, p.count m ≠ 0 := by
  by_contra hnone
  push Not at hnone
  exact Bool.false_ne_true (h.symm.trans (hp.isEmpty_iff.2 hnone))

/-- What holds a pool with instances is not empty. -/
theorem isEmpty_of_isSubset (hp : p.IsNormal) (h : p.isEmpty = false)
    (hle : p.isSubset q = true) : q.isEmpty = false := by
  rw [Bool.eq_false_iff]
  intro hempty
  obtain ⟨m, hm⟩ := hp.exists_count_ne_zero h
  exact hm (count_eq_zero_of_isSubset hle (count_of_isEmpty hempty m))

theorem toNat_count_sum (p q : Pool) (m : Model) :
    ((p.sum q).count m).toNat = Min.min ((p.count m).toNat + (q.count m).toNat) countLimit := by
  rw [sum, count_zipWith (by decide), toNat_addCounts]

theorem count_min (p q : Pool) (m : Model) :
    (p.min q).count m = if q.count m < p.count m then q.count m else p.count m :=
  count_zipWith (by decide) p q m

theorem count_max (p q : Pool) (m : Model) :
    (p.max q).count m = if p.count m < q.count m then q.count m else p.count m :=
  count_zipWith (by decide) p q m

theorem le_count_min_iff : c ≤ (p.min q).count m ↔ c ≤ p.count m ∧ c ≤ q.count m := by
  rw [count_min]
  simp only [UInt32.le_iff_toNat_le, UInt32.lt_iff_toNat_lt]
  split <;> omega

theorem isSubset_min_iff :
    r.isSubset (p.min q) = true ↔ r.isSubset p = true ∧ r.isSubset q = true := by
  simp only [isSubset_iff, le_count_min_iff, forall_and]

theorem min_isSubset_left (p q : Pool) : (p.min q).isSubset p = true :=
  (isSubset_min_iff.1 (isSubset_refl _)).1

theorem min_isSubset_right (p q : Pool) : (p.min q).isSubset q = true :=
  (isSubset_min_iff.1 (isSubset_refl _)).2

theorem isNull_min (h : p.isNull = true) : (p.min q).isNull = true :=
  isNull_iff.2 fun m => count_eq_zero_of_isSubset (min_isSubset_left p q) (isNull_iff.1 h m)

theorem toNat_count_max (p q : Pool) (m : Model) :
    ((p.max q).count m).toNat = Max.max (p.count m).toNat (q.count m).toNat := by
  rw [count_max]
  simp only [UInt32.lt_iff_toNat_lt]
  split <;> omega

theorem isSubset_max_left (p q : Pool) : p.isSubset (p.max q) = true := by
  rw [isSubset_iff]
  intro m
  rw [UInt32.le_iff_toNat_le, toNat_count_max]
  exact Nat.le_max_left _ _

theorem isSubset_max_right (p q : Pool) : q.isSubset (p.max q) = true := by
  rw [isSubset_iff]
  intro m
  rw [UInt32.le_iff_toNat_le, toNat_count_max]
  exact Nat.le_max_right _ _

/-! ### One instance less -/

/-- `q` holds what `p` holds, but for one instance of `a`. -/
structure IsOneLess (q p : Pool) (a : Model) : Prop where
  count_self : (q.count a).toNat + 1 = (p.count a).toNat
  count_other : ∀ b, b ≠ a → q.count b = p.count b

theorem count_erase (p : Pool) (m n : Model) :
    (p.erase m).count n = if n = m then 0 else p.count n := by
  simp only [count, erase, OrderedMap.get?_erase]
  split <;> rfl

theorem count_withoutOne_self (p : Pool) (m : Model) :
    ((p.withoutOne m).count m).toNat = (p.count m).toNat - 1 := by
  rw [withoutOne]
  split
  · rename_i hle
    have hle' : (p.count m).toNat ≤ 1 := UInt32.le_iff_toNat_le.1 hle
    rw [count_erase, if_pos rfl, UInt32.toNat_zero]
    omega
  · rename_i hlt
    rw [UInt32.le_iff_toNat_le, UInt32.toNat_one] at hlt
    rw [count_set, if_pos rfl, UInt32.toNat_sub_of_le _ _ (by
      rw [UInt32.le_iff_toNat_le, UInt32.toNat_one]; omega), UInt32.toNat_one]

theorem count_withoutOne_of_ne {n : Model} (h : n ≠ m) :
    (p.withoutOne m).count n = p.count n := by
  rw [withoutOne]
  split
  · rw [count_erase, if_neg h]
  · exact (count_set ..).trans (if_neg h)

theorem count_withoutOne_congr {n : Model} (h : p.count n = q.count n) (m : Model) :
    (p.withoutOne m).count n = (q.withoutOne m).count n := by
  by_cases hn : n = m
  · refine UInt32.toNat_inj.1 ?_
    rw [hn] at h ⊢
    rw [count_withoutOne_self, count_withoutOne_self, h]
  · rw [count_withoutOne_of_ne hn, count_withoutOne_of_ne hn, h]

theorem isOneLess_withoutOne (h : p.count m ≠ 0) : IsOneLess (p.withoutOne m) p m := by
  refine ⟨?_, fun _ => count_withoutOne_of_ne⟩
  have hpos := toNat_pos h
  rw [count_withoutOne_self]
  omega

theorem IsOneLess.isSubset (h : IsOneLess q p m) : q.isSubset p = true := by
  rw [isSubset_iff]
  intro b
  by_cases hb : b = m
  · rw [hb, UInt32.le_iff_toNat_le]
    exact Nat.le_of_lt (Nat.lt_of_succ_le h.count_self.le)
  · rw [h.count_other b hb]
    exact UInt32.le_refl _

theorem IsOneLess.count_eq (h : IsOneLess q p m) (h' : IsOneLess r p m) (b : Model) :
    q.count b = r.count b := by
  by_cases hb : b = m
  · have := h.count_self
    have := h'.count_self
    rw [hb]
    exact UInt32.toNat_inj.1 (by omega)
  · rw [h.count_other b hb, h'.count_other b hb]

/-- A smaller pool is within the pool with one instance less of some model. -/
theorem exists_isSubset_withoutOne (hq : q.IsNormal) (hp : p.IsNormal)
    (hle : q.isSubset p = true) (hne : q ≠ p) :
    ∃ a, p.count a ≠ 0 ∧ q.isSubset (p.withoutOne a) = true := by
  have hex : ∃ a, q.count a ≠ p.count a := by
    by_contra hall
    exact hne (ext_count hq hp (by simpa using hall))
  obtain ⟨a, ha⟩ := hex
  rw [isSubset_iff] at hle
  have hlt : (q.count a).toNat < (p.count a).toNat :=
    Nat.lt_of_le_of_ne (UInt32.le_iff_toNat_le.1 (hle a)) fun h => ha (UInt32.toNat_inj.1 h)
  refine ⟨a, fun h => ?_, isSubset_iff.2 fun b => ?_⟩
  · rw [h, UInt32.toNat_zero] at hlt
    exact Nat.not_lt_zero _ hlt
  · by_cases hb : b = a
    · rw [hb, UInt32.le_iff_toNat_le, count_withoutOne_self]
      omega
    · rw [count_withoutOne_of_ne hb]
      exact hle b

/-! ### Entries of subsets -/

/-- An entry of the same model with a count that is not smaller. -/
def EntryLe (e f : Model × UInt32) : Prop := e.1 = f.1 ∧ e.2 ≤ f.2

theorem sublistForall₂_of_ascending : ∀ {es fs : List (Model × UInt32)},
    es.Pairwise (fun e f => compare e.1 f.1 = .lt) →
    fs.Pairwise (fun e f => compare e.1 f.1 = .lt) →
    (∀ e ∈ es, ∃ f ∈ fs, EntryLe e f) → List.SublistForall₂ EntryLe es fs
  | [], fs, _, _, _ => .nil
  | e :: es, [], _, _, h => by
    obtain ⟨f, hf, -⟩ := h e List.mem_cons_self
    exact absurd hf List.not_mem_nil
  | e :: es, f :: fs, hes, hfs, h => by
    obtain ⟨he, hes'⟩ := List.pairwise_cons.1 hes
    obtain ⟨hf, hfs'⟩ := List.pairwise_cons.1 hfs
    obtain ⟨g, hg, hle⟩ := h e List.mem_cons_self
    rcases List.mem_cons.1 hg with rfl | hrest
    · refine .cons hle (sublistForall₂_of_ascending hes' hfs' fun e' he' => ?_)
      obtain ⟨g', hg', hle'⟩ := h e' (List.mem_cons_of_mem _ he')
      rcases List.mem_cons.1 hg' with rfl | hg'
      · have hlt := he e' he'
        rw [hle.1, hle'.1] at hlt
        exact absurd hlt (OrderedSet.compare_self_ne_lt _)
      · exact ⟨g', hg', hle'⟩
    · refine .cons_right (sublistForall₂_of_ascending hes hfs' fun e' he' => ?_)
      obtain ⟨g', hg', hle'⟩ := h e' he'
      rcases List.mem_cons.1 hg' with rfl | hg'
      · -- the first entry comes before all others, and it is found behind `g'`
        have hlt : compare g'.1 e.1 = .lt := hle.1 ▸ hf g hrest
        rcases List.mem_cons.1 he' with rfl | hlater
        · rw [hle'.1] at hlt
          exact absurd hlt (OrderedSet.compare_self_ne_lt _)
        · have hgt := he e' hlater
          rw [hle'.1] at hgt
          exact absurd (TransCmp.lt_trans hlt hgt) (OrderedSet.compare_self_ne_lt _)
      · exact ⟨g', hg', hle'⟩

theorem sublistForall₂_entries (hp : p.IsNormal) (hle : p.isSubset q = true) :
    List.SublistForall₂ EntryLe p.entries q.entries := by
  refine sublistForall₂_of_ascending p.counts.ascending q.counts.ascending fun e he => ?_
  have hcount := count_eq_of_mem he
  have hm := isSubset_iff.1 hle e.1
  rw [hcount] at hm
  have hne : q.count e.1 ≠ 0 :=
    fun h => hp e he (hcount.symm.trans (count_eq_zero_of_isSubset hle h))
  exact ⟨_, mem_entries_of_count_ne_zero hne, rfl, hm⟩

theorem sum_le_of_sublistForall₂ {es fs : List (Model × UInt32)}
    (h : List.SublistForall₂ EntryLe es fs) :
    sumOf (es.map fun e => e.2.toNat) ≤ sumOf (fs.map fun e => e.2.toNat) := by
  induction h with
  | nil => exact Nat.zero_le _
  | cons hle _ ih => exact Nat.add_le_add (UInt32.le_iff_toNat_le.1 hle.2) ih
  | cons_right _ ih => exact ih.trans (Nat.le_add_left ..)

theorem eq_of_sublistForall₂ {es fs : List (Model × UInt32)}
    (h : List.SublistForall₂ EntryLe es fs) (hfs : ∀ f ∈ fs, f.2 ≠ 0)
    (hsum : sumOf (fs.map fun e => e.2.toNat) ≤ sumOf (es.map fun e => e.2.toNat)) : es = fs := by
  induction h with
  | @nil fs =>
    cases fs with
    | nil => rfl
    | cons f fs =>
      have hpos : f.2.toNat ≠ 0 := fun h =>
        hfs f List.mem_cons_self (UInt32.toNat_inj.1 h)
      simp only [List.map_cons, List.map_nil, sumOf, List.foldr_cons, List.foldr_nil] at hsum
      omega
  | @cons e f es fs hle htail ih =>
    have hrest := sum_le_of_sublistForall₂ htail
    have hle' := UInt32.le_iff_toNat_le.1 hle.2
    simp only [List.map_cons, sumOf, List.foldr_cons] at hsum hrest
    have hcount : e.2 = f.2 := UInt32.toNat_inj.1 (by omega)
    rw [Prod.ext hle.1 hcount, ih (fun f hf => hfs f (List.mem_cons_of_mem _ hf)) (by
      simp only [sumOf]; omega)]
  | @cons_right f es fs htail ih =>
    have hrest := sum_le_of_sublistForall₂ htail
    have hpos : f.2.toNat ≠ 0 := fun h => hfs f List.mem_cons_self (UInt32.toNat_inj.1 h)
    simp only [List.map_cons, sumOf, List.foldr_cons] at hsum hrest
    omega

theorem totalAtoms_le (hp : p.IsNormal) (h : p.isSubset q = true) :
    p.totalAtoms ≤ q.totalAtoms := sum_le_of_sublistForall₂ (sublistForall₂_entries hp h)

theorem IsNormal.totalAtoms_pos_iff (hp : p.IsNormal) : 0 < p.totalAtoms ↔ p.isEmpty = false := by
  obtain ⟨⟨es, hasc⟩⟩ := p
  cases es with
  | nil => exact ⟨fun h => absurd h (Nat.lt_irrefl 0), fun h => absurd h Bool.noConfusion⟩
  | cons e es =>
    have hpos : e.2.toNat ≠ 0 := fun h => hp e List.mem_cons_self (UInt32.toNat_inj.1 h)
    exact ⟨fun _ => rfl, fun _ => Nat.add_pos_left (Nat.pos_of_ne_zero hpos) _⟩

/-- A proper subset holds fewer instances. -/
theorem totalAtoms_lt (hq : q.IsNormal) (hp : p.IsNormal) (hle : q.isSubset p = true)
    (hne : q ≠ p) : q.totalAtoms < p.totalAtoms := by
  have hsub := sublistForall₂_entries hq hle
  refine Nat.lt_of_le_of_ne (sum_le_of_sublistForall₂ hsub) fun h => hne ?_
  have hentries := eq_of_sublistForall₂ hsub hp h.ge
  exact ext_count hq hp fun m => by
    rw [count, count, OrderedMap.get?, OrderedMap.get?]
    exact congrArg (fun es => (OrderedMap.lookup m es).getD 0) hentries

/-- Below every pool with a property is one with no smaller such pool below it. -/
theorem exists_least_subset {P : Pool → Prop} (hp : p.IsNormal) (h : P p) :
    ∃ q, q.IsNormal ∧ q.isSubset p = true ∧ P q ∧
      ∀ r, r.IsNormal → r.isSubset q = true → P r → r = q := by
  induction hn : p.totalAtoms using Nat.strong_induction_on generalizing p with
  | _ n ih =>
    by_cases hleast : ∀ r, r.IsNormal → r.isSubset p = true → P r → r = p
    · exact ⟨p, hp, isSubset_refl p, h, hleast⟩
    · push Not at hleast
      obtain ⟨r, hr, hle, hPr, hne⟩ := hleast
      obtain ⟨q, hq, hqr, hPq, hmin⟩ := ih _ (hn ▸ totalAtoms_lt hr hp hle hne) hr hPr rfl
      exact ⟨q, hq, isSubset_trans hqr hle, hPq, hmin⟩

/-! ### Pools of given entries -/

theorem addCounts_zero (c : UInt32) : addCounts 0 c = c := by
  have := c.toNat_lt
  rw [addCounts, UInt32.toNat_zero, Nat.zero_add,
    show Nat.min c.toNat countLimit = c.toNat from Nat.min_eq_left (by rw [countLimit]; omega)]
  exact UInt32.ofNat_toNat

theorem isNormal_set (hp : p.IsNormal) (hc : c ≠ 0) : (p.set m c).IsNormal := by
  rw [isNormal_iff] at hp ⊢
  intro n d h
  rw [set, OrderedMap.get?_insert] at h
  split at h
  · exact Option.some.inj h ▸ hc
  · exact hp n d h

theorem foldl_add_spec : ∀ {es : List (Model × UInt32)} {p : Pool}, p.IsNormal →
    (es.map Prod.fst).Nodup → (∀ e ∈ es, e.2 ≠ 0 ∧ p.count e.1 = 0) →
    (es.foldl (fun p e => p.add e.1 e.2) p).IsNormal ∧ ∀ m,
      (es.foldl (fun p e => p.add e.1 e.2) p).count m =
        (OrderedMap.lookup m es).getD (p.count m)
  | [], p, hp, _, _ => ⟨hp, fun _ => rfl⟩
  | e :: es, p, hp, hnodup, hes => by
    obtain ⟨hnot, hnodup'⟩ := List.nodup_cons.1 hnodup
    obtain ⟨hne, hzero⟩ := hes e List.mem_cons_self
    have hadd : p.add e.1 e.2 = p.set e.1 e.2 := by rw [add, hzero, addCounts_zero]
    have hrest : ∀ f ∈ es, f.2 ≠ 0 ∧ (p.add e.1 e.2).count f.1 = 0 := by
      intro f hf
      have hfe : f.1 ≠ e.1 := fun h => hnot (h ▸ List.mem_map_of_mem hf)
      rw [hadd, count_set, if_neg hfe]
      exact hes f (List.mem_cons_of_mem _ hf)
    obtain ⟨hnormal, hcount⟩ := foldl_add_spec (hadd ▸ isNormal_set hp hne) hnodup' hrest
    refine ⟨hnormal, fun m => ?_⟩
    rw [List.foldl_cons, hcount, hadd, count_set, OrderedMap.lookup_cons]
    by_cases hm : m = e.1
    · have hnone : OrderedMap.lookup m es = none := by
        rw [← Option.not_isSome_iff_eq_none, OrderedMap.lookup_isSome, hm]
        exact hnot
      rw [hnone, if_pos hm, if_pos hm]
      rfl
    · rw [if_neg hm, if_neg hm]

theorem isNormal_empty : empty.IsNormal := fun _ h => absurd h List.not_mem_nil

theorem nodup_of_ascending {es : List (Model × UInt32)}
    (h : es.Pairwise fun e f => compare e.1 f.1 = .lt) : (es.map Prod.fst).Nodup := by
  refine List.pairwise_map.2 (h.imp ?_)
  rintro e f hlt heq
  rw [heq] at hlt
  exact OrderedSet.compare_self_ne_lt _ hlt

/-- Ascending entries without zeros are kept as they are. -/
theorem ofPairs_eq {es : List (Model × UInt32)}
    (h : es.Pairwise fun e f => compare e.1 f.1 = .lt) (hne : ∀ e ∈ es, e.2 ≠ 0) :
    ofPairs es = ⟨⟨es, h⟩⟩ := by
  obtain ⟨hnormal, hcount⟩ := foldl_add_spec isNormal_empty (nodup_of_ascending h)
    fun e he => ⟨hne e he, count_empty e.1⟩
  exact ext_count hnormal hne hcount

theorem ofPairs_entries (hp : p.IsNormal) : ofPairs p.entries = p :=
  ofPairs_eq p.counts.ascending hp

/-! ### Sums of many pools -/

theorem sumAll_concat (ps : List Pool) (p : Pool) : sumAll (ps ++ [p]) = (sumAll ps).sum p := by
  rw [sumAll, List.foldl_append]
  rfl

theorem isNormal_sumAll (ps : List Pool) : (sumAll ps).IsNormal := by
  induction ps using List.reverseRecOn with
  | nil => exact isNormal_empty
  | append_singleton ps p _ =>
    rw [sumAll_concat]
    exact isNormal_zipWith _ _ _

/-- Pools that are added up hold what all of them hold together, up to the largest count. -/
theorem toNat_count_sumAll (ps : List Pool) (m : Model) :
    ((sumAll ps).count m).toNat = Min.min (ps.map fun p => (p.count m).toNat).sum countLimit := by
  induction ps using List.reverseRecOn with
  | nil => rfl
  | append_singleton ps p ih =>
    rw [sumAll_concat, toNat_count_sum, ih, List.map_append, List.sum_append]
    simp only [List.map_cons, List.map_nil, List.sum_cons, List.sum_nil]
    omega

end Muster.Pool
