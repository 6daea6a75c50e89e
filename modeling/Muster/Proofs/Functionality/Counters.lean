import Muster.Proofs.Counter
import Muster.Proofs.Organization
import Muster.Proofs.Property.Scaling
import Mathlib.Algebra.BigOperators.Group.List.Basic
import Mathlib.Data.Set.Card

/-!
What a search for pools counts. Each step adds so much to each counter (`Counts`), so a whole search
adds what its steps do. The pools that are tried are all different, and so are those that are kept,
so that the counters are numbers of pools: of the sub-pools of what is searched, up to the limit, and
of the pools that the mapping holds.

Main statements: `ncard_subPools`, `Counts.trans`, `counts_foldlM`, `counts_tryMinimal`,
`counts_tryAll`, `counters_of_functionalityMapping`.
-/

namespace Muster

theorem sum_map_ite_eq_countP {α : Type} (q : α → Bool) (xs : List α) :
    (xs.map fun x => if q x then 1 else 0).sum = xs.countP q := by
  induction xs with
  | nil => rfl
  | cons x xs ih => simp [List.countP_cons, ih, Nat.add_comm]

/-- Two ways to count the pairs that are related. -/
theorem sum_map_countP_comm {α β : Type} (r : α → β → Bool) (xs : List α) (ys : List β) :
    (xs.map fun x => ys.countP (r x)).sum = (ys.map fun y => xs.countP (r · y)).sum := by
  induction xs with
  | nil => simp
  | cons x xs ih =>
    rw [List.map_cons, List.sum_cons, ih, ← sum_map_ite_eq_countP, ← List.sum_map_add]
    simp [List.countP_cons, Nat.add_comm]

/-! ### The number of sub-pools -/

namespace Pool

/-- The pools within a pool that hold something. -/
def subPools (p : Pool) : Set Pool := {q | q.IsNormal ∧ q.isSubset p = true ∧ q.isEmpty = false}

theorem Precedes.ne {p q : Pool} (h : p.Precedes q) : p ≠ q := by
  rintro rfl
  obtain ⟨m, hlt, -⟩ := h
  exact UInt32.lt_irrefl _ hlt

end Pool

namespace Enumeration

theorem nodup_poolsWithin (bound : Pool) (budget : Nat) (mode : EnumerationMode) :
    (poolsWithin bound budget mode).Nodup :=
  (listsPools_poolsWithin bound budget mode).ascending.imp Pool.Precedes.ne

end Enumeration

open Enumeration (poolsWithin)

namespace Pool

theorem ncard_subPools (p : Pool) :
    p.subPools.ncard = (poolsWithin p p.totalAtoms .max).length := by
  have hset : p.subPools = (poolsWithin p p.totalAtoms .max).toFinset := by
    ext q
    simp [subPools, MappingConfig.mem_poolsWithin]
  rw [hset, Set.ncard_coe_finset,
    List.toFinset_card_of_nodup (Enumeration.nodup_poolsWithin _ _ _)]

end Pool

namespace MappingConfig

variable {c : MappingConfig} {limit : Option Nat} {bound p : Pool}

/-- As many sub-pools are tried as there are and the limit allows, -/
theorem length_combinations (c : MappingConfig) (bound : Pool) :
    (c.combinations bound).toList.length = limitTo c.combinationLimit bound.subPools.ncard := by
  rw [toList_combinations, length_upTo, Pool.ncard_subPools]

/-- none of them twice. -/
theorem nodup_combinations (c : MappingConfig) (bound : Pool) :
    (c.combinations bound).toList.Nodup := by
  rw [toList_combinations]
  exact (Enumeration.nodup_poolsWithin _ _ _).sublist (upTo_sublist _ _)

/-- A larger limit leaves out no pool. -/
theorem mem_combinations_of_le (hlimit : ∀ n ∈ limit, ∃ k ∈ c.combinationLimit, k ≤ n)
    (hp : p ∈ (c.combinations bound).toList) :
    p ∈ ({ c with combinationLimit := limit }.combinations bound).toList := by
  rw [toList_combinations] at hp ⊢
  exact (upTo_sublist_upTo hlimit).subset hp

end MappingConfig

/-! ### What a step counts -/

namespace MappingSearch

variable {o : Ontology} {c : MappingConfig} {clock : Clock} {s s' s'' : MappingSearch}
  {a b n a' b' n' : Nat} {p : Pool} {f : Model} {fs : List Model}

/-- A search goes on with so many more candidates, evaluations and solutions. -/
structure Counts (a b n : Nat) (s s' : MappingSearch) : Prop where
  candidates : ∀ k, s.mapping.statistics.candidates = capped k →
    s'.mapping.statistics.candidates = capped (k + a)
  evaluations : ∀ k, s.mapping.statistics.evaluations = capped k →
    s'.mapping.statistics.evaluations = capped (k + b)
  solutions : ∀ k, s.mapping.statistics.solutions = capped k →
    s'.mapping.statistics.solutions = capped (k + n)

theorem Counts.refl (s : MappingSearch) : Counts 0 0 0 s s :=
  ⟨fun _ h => h, fun _ h => h, fun _ h => h⟩

theorem Counts.trans (h : Counts a b n s s') (h' : Counts a' b' n' s' s'') :
    Counts (a + a') (b + b') (n + n') s s'' := by
  refine ⟨fun k hk => ?_, fun k hk => ?_, fun k hk => ?_⟩
  · rw [← Nat.add_assoc]
    exact h'.candidates _ (h.candidates k hk)
  · rw [← Nat.add_assoc]
    exact h'.evaluations _ (h.evaluations k hk)
  · rw [← Nat.add_assoc]
    exact h'.solutions _ (h.solutions k hk)

/-- A fold of steps counts what its steps count together. -/
theorem counts_foldlM {α : Type} {step : MappingSearch → α → Except RequestError MappingSearch}
    {a b n : α → Nat} {xs : List α} (hs : s.IsFor o c clock)
    (hstep : ∀ x ∈ xs, ∀ s s' : MappingSearch, s.IsFor o c clock → step s x = .ok s' →
      s'.IsFor o c clock ∧ Counts (a x) (b x) (n x) s s')
    (h : xs.foldlM step s = .ok s') :
    Counts (xs.map a).sum (xs.map b).sum (xs.map n).sum s s' := by
  induction xs generalizing s with
  | nil =>
    obtain rfl := Except.ok.inj h
    exact .refl _
  | cons x xs ih =>
    rw [List.foldlM_cons] at h
    obtain ⟨t, ht, hrest⟩ := exists_of_bind_eq_ok h
    obtain ⟨htfor, hfirst⟩ := hstep x List.mem_cons_self s t hs ht
    simp only [List.map_cons, List.sum_cons]
    exact hfirst.trans (ih htfor (fun y hy => hstep y (List.mem_cons_of_mem x hy)) hrest)

theorem counts_candidate (h : s.candidate = .ok s') : Counts 1 0 0 s s' := by
  obtain ⟨t, ht, hs'⟩ := exists_of_bind_eq_ok h
  obtain rfl := Except.ok.inj hs'
  have hmapping : t.mapping = s.mapping := by
    rw [checkTime] at ht
    split at ht
    · obtain rfl := Except.ok.inj ht
      rfl
    · simp only at ht
      split at ht
      · simp at ht
      · obtain rfl := Except.ok.inj ht
        rfl
  refine ⟨fun k hk => ?_, fun k hk => ?_, fun k hk => ?_⟩
  · rw [← hmapping] at hk
    simp [update, FunctionalityMapping.tallied, SearchStatistics.countCandidate, hk, tally_capped]
  · rwa [← hmapping] at hk
  · rwa [← hmapping] at hk

theorem counts_evaluation (s : MappingSearch) :
    Counts 0 1 0 s (s.update (·.tallied (·.countEvaluation))) := by
  refine ⟨fun _ h => h, fun k hk => ?_, fun _ h => h⟩
  simp [update, FunctionalityMapping.tallied, SearchStatistics.countEvaluation, hk, tally_capped]

theorem counts_found (s : MappingSearch) (p : Pool) (f : Model) :
    Counts 0 0 1 s (s.found p f) := by
  refine ⟨fun _ h => h, fun _ h => h, fun k hk => ?_⟩
  simp [found, update, FunctionalityMapping.tallied, FunctionalityMapping.add,
    SearchStatistics.countSolution, hk, tally_capped]

/-- Whether `tryMinimal` keeps a pool. -/
def isKept (o : Ontology) (c : MappingConfig) (clock : Clock) (f : Model) (p : Pool) : Bool :=
  (p.isMinimal o [f]).toOption.any id && !(c.checkWiring && !p.isWirable o c.wiring clock)

theorem isKept_iff : isKept o c clock f p = true ↔ p.isMinimal o [f] = .ok true ∧
    (c.checkWiring = true → p.isWirable o c.wiring clock = true) := by
  obtain ⟨b, hb⟩ : ∃ b, p.isMinimal o [f] = .ok b := ⟨_, Pool.isMinimal_eq o [f] p⟩
  cases hcheck : c.checkWiring <;> simp [isKept, hb, hcheck, Except.toOption]

theorem counts_tryMinimal (hs : s.IsFor o c clock) (h : tryMinimal f s p = .ok s') :
    Counts 1 1 (if isKept o c clock f p then 1 else 0) s s' := by
  rw [tryMinimal] at h
  obtain ⟨t, ht, h⟩ := exists_of_bind_eq_ok h
  have hcount := (counts_candidate ht).trans (counts_evaluation t)
  have hu := (hs.of_adds ((yields_candidate s).adds t ht)).of_adds
    (adds_tallied t (·.countEvaluation))
  generalize t.update (·.tallied (·.countEvaluation)) = u at h hcount hu
  obtain ⟨rfl, rfl, rfl⟩ := hu
  have hend : s' = if isKept u.ontology u.config u.clock f p then u.found p f else u := by
    obtain ⟨b, hb⟩ : ∃ b, p.isMinimal u.ontology [f] = .ok b := ⟨_, Pool.isMinimal_eq _ [f] p⟩
    simp only [hb, bind, Except.bind, pure, Except.pure] at h
    cases b with
    | false =>
      obtain rfl := Except.ok.inj h
      simp [isKept, hb, Except.toOption]
    | true =>
      simp only [Bool.not_true, Bool.false_eq_true, if_false] at h
      split at h
      · rename_i hdrop
        obtain rfl := Except.ok.inj h
        rw [isKept, hdrop, Bool.not_true, Bool.and_false, if_neg Bool.false_ne_true]
      · rename_i hkeep
        obtain rfl := Except.ok.inj h
        rw [Bool.not_eq_true] at hkeep
        rw [isKept, hb, hkeep]
        rfl
  rw [hend]
  cases isKept u.ontology u.config u.clock f p with
  | true => exact hcount.trans (counts_found u p f)
  | false => exact hcount

theorem counts_tryServing (hs : s.IsFor o c clock) (h : tryServing p s f = .ok s') :
    Counts 0 1 (if decide (Pool.Serves o [f] p) then 1 else 0) s s' := by
  have hcount := counts_evaluation s
  obtain ⟨rfl, -, -⟩ := hs.of_adds (adds_tallied s (·.countEvaluation))
  rw [tryServing] at h
  simp only [Pool.isSupporting_eq, bind, Except.bind, pure, Except.pure] at h
  obtain rfl := Except.ok.inj h
  cases decide (Pool.Serves _ [f] p) with
  | true => exact hcount.trans (counts_found _ p f)
  | false => exact hcount

/-- A pool that is tried for all functionalities is evaluated for each. -/
theorem counts_tryAll (hs : s.IsFor o c clock) (h : tryAll fs s p = .ok s') :
    Counts 1 fs.length (fs.countP fun f => Pool.Serves o [f] p) s s' := by
  obtain ⟨t, ht, h⟩ := exists_of_bind_eq_ok h
  have hrest := counts_foldlM (a := fun _ => 0) (b := fun _ => 1)
    (n := fun f => if decide (Pool.Serves o [f] p) then 1 else 0)
    (hs.of_adds ((yields_candidate s).adds t ht)) (fun f _ s s' hs h =>
      ⟨hs.of_adds ((yields_tryServing hs p).adds s' h), counts_tryServing hs h⟩) h
  rw [sum_map_ite_eq_countP] at hrest
  simpa using (counts_candidate ht).trans hrest

theorem counts_searchBounded {pool bounded limits : Pool} (hs : s.IsFor o c clock)
    (hlimits : (⟨f, []⟩ : Resource).saturationBound o pool = .ok limits)
    (h : searchBounded pool bounded s f = .ok s') :
    Counts (c.combinations (bounded.min limits)).toList.length
      (c.combinations (bounded.min limits)).toList.length
      ((c.combinations (bounded.min limits)).toList.countP (isKept o c clock f)) s s' := by
  rw [searchBounded, hs.ontology_eq, hlimits] at h
  simp only [bind, Except.bind, pure, Except.pure] at h
  split at h
  · rename_i hnull
    obtain rfl := Except.ok.inj h
    rw [List.eq_nil_iff_forall_not_mem.2 fun p => combinations_of_isNull hnull]
    exact .refl s
  · rw [Enumeration.foldAll_eq_foldlM, hs.config_eq] at h
    have hsum := counts_foldlM (a := fun _ => 1) (b := fun _ => 1)
      (n := fun p => if isKept o c clock f p then 1 else 0) hs (fun p _ s s' hs h =>
        ⟨hs.of_adds ((yields_tryMinimal hs p).adds s' h), counts_tryMinimal hs h⟩) h
    rw [sum_map_ite_eq_countP] at hsum
    simpa using hsum

end MappingSearch

/-! ### What a mapping counts -/

/-- The members of a set are those of a list without repetitions that pass a test. -/
theorem OrderedSet.size_eq_countP {α : Type} [Ord α] [Std.ReflOrd α] {s : OrderedSet α}
    {xs : List α} (hxs : xs.Nodup) {q : α → Bool} (h : ∀ a, a ∈ s ↔ a ∈ xs ∧ q a = true) :
    s.size = xs.countP q := by
  rw [List.countP_eq_length_filter, size]
  refine ((List.perm_ext_iff_of_nodup s.nodup (hxs.filter q)).2 fun a => ?_).length_eq
  rw [List.mem_filter]
  exact h a

namespace Pool

open MappingSearch

variable {o : Ontology} {c : MappingConfig} {clock : Clock} {pool bound limits p q : Pool}
  {own : Model → Pool} {fs : List Model} {f : Model} {m m' : FunctionalityMapping} {a b n : Nat}
  {s : MappingSearch}

/-- The counters of a mapping. -/
structure HasCounters (a b n : Nat) (m : FunctionalityMapping) : Prop where
  candidates : m.statistics.candidates = capped a
  evaluations : m.statistics.evaluations = capped b
  solutions : m.statistics.solutions = capped n

theorem hasCounters_of_counts (h : Counts a b n (mappingSearch o c clock pool fs bound) s) :
    HasCounters a b n s.mapping := by
  refine ⟨?_, ?_, ?_⟩
  · simpa using h.candidates 0 rfl
  · simpa using h.evaluations 0 rfl
  · simpa using h.solutions 0 rfl

theorem hasCounters_minimalMapping
    (hlimits : pool.saturationBound o (fs.map fun f => ⟨f, []⟩) = .ok limits)
    (hown : ∀ f ∈ fs, (⟨f, []⟩ : Resource).saturationBound o pool = .ok (own f))
    (h : minimalMapping o c clock pool fs = .ok m) :
    HasCounters
      (fs.map fun f => (c.combinations ((pool.min limits).min (own f))).toList.length).sum
      (fs.map fun f => (c.combinations ((pool.min limits).min (own f))).toList.length).sum
      (fs.map fun f => (c.combinations ((pool.min limits).min (own f))).toList.countP
        (isKept o c clock f)).sum m := by
  rw [minimalMapping, hlimits] at h
  simp only [bind, Except.bind, pure, Except.pure] at h
  split at h
  · rename_i hnull
    obtain rfl := Except.ok.inj h
    have hnone : ∀ f, (c.combinations ((pool.min limits).min (own f))).toList = [] := fun f =>
      List.eq_nil_iff_forall_not_mem.2 fun p => combinations_of_isNull (isNull_min hnull)
    simp only [hnone, List.length_nil, List.countP_nil]
    simpa using hasCounters_of_counts (.refl (mappingSearch o c clock pool fs (pool.min limits)))
  · obtain ⟨s, hs, hm⟩ := exists_of_bind_eq_ok h
    obtain rfl := Except.ok.inj hm
    exact hasCounters_of_counts (counts_foldlM ⟨rfl, rfl, rfl⟩ (fun f hf s s' hs h =>
      ⟨hs.of_adds ((yields_searchBounded hs (hown f hf)).adds s' h),
        counts_searchBounded hs (hown f hf) h⟩) hs)

theorem hasCounters_fullMapping (h : fullMapping o c clock pool fs = .ok m) :
    HasCounters (c.combinations pool).toList.length
      ((c.combinations pool).toList.length * fs.length)
      ((c.combinations pool).toList.map fun p => fs.countP fun f => Serves o [f] p).sum m := by
  rw [fullMapping, Enumeration.foldAll_eq_foldlM] at h
  obtain ⟨s, hs, hm⟩ := exists_of_bind_eq_ok h
  obtain rfl := Except.ok.inj hm
  have hstart : (mappingSearch o c clock pool fs pool).IsFor o c clock := ⟨rfl, rfl, rfl⟩
  have hcounters := hasCounters_of_counts (counts_foldlM (a := fun _ => 1) (b := fun _ => fs.length)
    (n := fun p => fs.countP fun f => Serves o [f] p) hstart (fun p _ s s' hs h =>
      ⟨hs.of_adds ((yields_tryAll hs p).adds s' h), counts_tryAll hs h⟩) hs)
  simpa using hcounters

theorem exists_hasCounters (h : functionalityMapping o c clock pool fs true = .ok m) :
    ∃ (limits : Pool) (own : Model → Pool),
      pool.saturationBound o (fs.map fun f => ⟨f, []⟩) = .ok limits ∧
      (∀ f, (⟨f, []⟩ : Resource).saturationBound o pool = .ok (own f)) ∧
      HasCounters
        (fs.map fun f => (c.combinations ((pool.min limits).min (own f))).toList.length).sum
        (fs.map fun f => (c.combinations ((pool.min limits).min (own f))).toList.length).sum
        (fs.map fun f => (c.combinations ((pool.min limits).min (own f))).toList.countP
          (isKept o c clock f)).sum m := by
  obtain ⟨hpool, hm⟩ := minimalMapping_of_functionalityMapping h
  obtain ⟨limits, hlimits, -⟩ := SupportVector.saturationBound_all hpool o fs
  choose own hown using fun f => SupportVector.saturationBound_plain hpool o f
  exact ⟨limits, own, hlimits, fun f => (hown f).1,
    hasCounters_minimalMapping hlimits (fun f _ => (hown f).1) hm⟩

theorem size_poolsOf_minimalMapping
    (h : functionalityMapping o c clock pool fs true = .ok m)
    (hlimits : pool.saturationBound o (fs.map fun f => ⟨f, []⟩) = .ok limits)
    (hown : (⟨f, []⟩ : Resource).saturationBound o pool = .ok (own f)) (hf : f ∈ fs) :
    (m.poolsOf f).size = (c.combinations ((pool.min limits).min (own f))).toList.countP
      (isKept o c clock f) := by
  obtain ⟨hpool, hm⟩ := minimalMapping_of_functionalityMapping h
  have hmaps : Maps _ _ c (minimalMapping o c clock pool fs) := minimalMapping_spec hpool hlimits
  refine OrderedSet.size_eq_countP (MappingConfig.nodup_combinations c _) fun p => ?_
  rw [hmaps.mem_iff m hm, isKept_iff]
  constructor
  · rintro ⟨-, ⟨own', hown', hp⟩, hminimal, hwirable⟩
    obtain rfl := Except.ok.inj (hown.symm.trans hown')
    exact ⟨hp, hminimal, hwirable⟩
  · rintro ⟨hp, hminimal, hwirable⟩
    exact ⟨hf, ⟨own f, hown, hp⟩, hminimal, hwirable⟩

theorem size_poolsOf_fullMapping (h : functionalityMapping o c clock pool fs false = .ok m)
    (hf : f ∈ fs) :
    (m.poolsOf f).size = (c.combinations pool).toList.countP fun p => Serves o [f] p := by
  refine OrderedSet.size_eq_countP (MappingConfig.nodup_combinations c pool) fun p => ?_
  rw [mem_poolsOf_iff_serves h, and_iff_right hf, decide_eq_true_iff]

/-- A larger limit takes no pool away. -/
theorem mem_poolsOf_of_le {limit : Option Nat} {useSaturation : Bool}
    (hlimit : ∀ n ∈ limit, ∃ k ∈ c.combinationLimit, k ≤ n)
    (h : functionalityMapping o c clock pool fs useSaturation = .ok m)
    (h' : functionalityMapping o { c with combinationLimit := limit } clock pool fs
      useSaturation = .ok m') (hp : p ∈ m.poolsOf f) : p ∈ m'.poolsOf f := by
  cases useSaturation with
  | false =>
    obtain ⟨hf, hcombination, hserves⟩ := (mem_poolsOf_iff_serves h).1 hp
    exact (mem_poolsOf_iff_serves h').2
      ⟨hf, MappingConfig.mem_combinations_of_le hlimit hcombination, hserves⟩
  | true =>
    obtain ⟨hpool, hm⟩ := minimalMapping_of_functionalityMapping h
    obtain ⟨limits, hlimits, -⟩ := SupportVector.saturationBound_all hpool o fs
    have hmaps : Maps _ _ c (minimalMapping o c clock pool fs) := minimalMapping_spec hpool hlimits
    obtain ⟨hf, ⟨own, hown, hcombination⟩, hminimal, hwirable⟩ := (hmaps.mem_iff m hm p f).1 hp
    refine ((minimalMapping_spec hpool hlimits).mem_iff m'
      (minimalMapping_of_functionalityMapping h').2 p f).2 ⟨hf, ⟨own, hown, ?_⟩, hminimal, hwirable⟩
    exact MappingConfig.mem_combinations_of_le hlimit hcombination

/-- If there is a mapping, its solutions are the pools that it holds for each functionality. Without
saturation bounds its candidates are the sub-pools of the pool, up to the limit, and each was
evaluated for every functionality. With them its candidates are for each functionality the sub-pools
within what it can use, up to the limit, and each was evaluated once. A larger limit takes no pool
away. -/
theorem counters_of_functionalityMapping {useSaturation : Bool}
    (h : functionalityMapping o c clock pool fs useSaturation = .ok m) :
    m.statistics.solutions = capped (fs.map fun f => (m.poolsOf f).size).sum ∧
    (useSaturation = false →
      m.statistics.candidates = capped (limitTo c.combinationLimit pool.subPools.ncard) ∧
      m.statistics.evaluations =
        capped (limitTo c.combinationLimit pool.subPools.ncard * fs.length)) ∧
    (useSaturation = true → ∃ (limits : Pool) (own : Model → Pool),
      pool.saturationBound o (fs.map fun f => ⟨f, []⟩) = .ok limits ∧
      (∀ f, (⟨f, []⟩ : Resource).saturationBound o pool = .ok (own f)) ∧
      m.statistics.candidates = capped (fs.map fun f =>
        limitTo c.combinationLimit ((pool.min limits).min (own f)).subPools.ncard).sum ∧
      m.statistics.evaluations = m.statistics.candidates) ∧
    ∀ (limit : Option Nat) (m' : FunctionalityMapping),
      (∀ n ∈ limit, ∃ k ∈ c.combinationLimit, k ≤ n) →
      functionalityMapping o { c with combinationLimit := limit } clock pool fs useSaturation =
        .ok m' → ∀ f, ∀ p ∈ m.poolsOf f, p ∈ m'.poolsOf f := by
  refine ⟨?_, ?_, ?_, fun limit m' hlimit h' f p hp => mem_poolsOf_of_le hlimit h h' hp⟩
  · cases useSaturation with
    | false =>
      have hcounters := hasCounters_fullMapping (fullMapping_of_functionalityMapping h)
      rw [hcounters.solutions, sum_map_countP_comm,
        List.map_congr_left fun f hf => size_poolsOf_fullMapping h hf]
    | true =>
      obtain ⟨limits, own, hlimits, hown, hcounters⟩ := exists_hasCounters h
      rw [hcounters.solutions,
        List.map_congr_left fun f hf => size_poolsOf_minimalMapping h hlimits (hown f) hf]
  · rintro rfl
    have hcounters := hasCounters_fullMapping (fullMapping_of_functionalityMapping h)
    rw [hcounters.candidates, hcounters.evaluations, MappingConfig.length_combinations]
    exact ⟨rfl, rfl⟩
  · rintro rfl
    obtain ⟨limits, own, hlimits, hown, hcounters⟩ := exists_hasCounters h
    refine ⟨limits, own, hlimits, hown, ?_, ?_⟩
    · simp only [hcounters.candidates, MappingConfig.length_combinations]
    · rw [hcounters.evaluations, hcounters.candidates]

/-- At most two of three candidates. -/
def atMostTwo : MappingConfig := { linkedInOrder with combinationLimit := some 2 }

theorem counters_of_functionalityMapping_threeRovers : ∃ few all,
    functionalityMapping roversWithArms.build.ontology atMostTwo stopped (rovers 3)
      [⟨"Dig"⟩, ⟨"Wave"⟩] false = .ok few ∧
    functionalityMapping roversWithArms.build.ontology linkedInOrder stopped (rovers 3)
      [⟨"Dig"⟩, ⟨"Wave"⟩] false = .ok all ∧
    few.statistics.candidates = 2 ∧ few.statistics.evaluations = 4 ∧
    few.statistics.solutions =
      capped ((few.poolsOf ⟨"Dig"⟩).size + (few.poolsOf ⟨"Wave"⟩).size) ∧
    ∀ p ∈ few.poolsOf ⟨"Dig"⟩, p ∈ all.poolsOf ⟨"Dig"⟩ := by
  have hpool : (rovers 3).isEmpty = false := by decide +kernel
  obtain ⟨few, hfew⟩ := functionalityMapping_ok (c := atMostTwo)
    roversWithArms.build.ontology stopped hpool (List.cons_ne_nil ⟨"Dig"⟩ [⟨"Wave"⟩]) rfl false
  obtain ⟨all, hall⟩ := functionalityMapping_ok (c := linkedInOrder)
    roversWithArms.build.ontology stopped hpool (List.cons_ne_nil ⟨"Dig"⟩ [⟨"Wave"⟩]) rfl false
  obtain ⟨hsolutions, hfull, -, hmore⟩ := counters_of_functionalityMapping hfew
  have hcount : limitTo atMostTwo.combinationLimit (rovers 3).subPools.ncard = 2 := by
    rw [ncard_subPools]
    decide +kernel
  obtain ⟨hcandidates, hevaluations⟩ := hfull rfl
  rw [hcount] at hcandidates hevaluations
  exact ⟨few, all, hfew, hall, hcandidates, hevaluations, hsolutions, hmore none all (by simp) hall _⟩

end Pool
end Muster
