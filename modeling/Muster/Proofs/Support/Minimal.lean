import Muster.Proofs.Support.Pool

/-!
Minimal pools. A pool is least for functionalities if it serves them and no longer does with one
instance less of any model. The test looks at one instance less only where it expects it to matter:
a least pool passes it, and a pool that passes it is least unless an entry gives no support by
itself. Such an entry offers nothing of what is needed, so to leave it out changes nothing for the
others, but it can itself be spared.

Main statements: `isMinimal_eq`, `exists_isLeast_subset`, `isMinimal_of_isLeast`,
`isLeast_of_isMinimal`, `serves_partialPool_withoutOne`, `isMinimal_iff_oneLess`.
-/

namespace Muster.Pool

open Std SupportVector

variable {o : Ontology} {fs : List Model} {p q r : Pool} {m : Model}

/-- A pool that serves functionalities, and no longer does with one instance less. -/
structure IsLeast (o : Ontology) (fs : List Model) (p : Pool) : Prop where
  serves : Serves o fs p
  not_serves : ∀ m, p.count m ≠ 0 → ¬ Serves o fs (p.withoutOne m)

/-- How well a pool serves functionalities. -/
def supportOf (o : Ontology) (fs : List Model) (p : Pool) : SupportType :=
  if Serves o fs p then .fullSupport
  else if ∃ l ∈ ownLabels o fs, 0 < (need o fs l).amount ∧
    0 < (supply o l p.normalized.entries).amount then .partialSupport
  else .noSupport

theorem supportType_eq_supportOf : supportType o fs p = .ok (supportOf o fs p) :=
  supportType_eq o fs p

theorem supportOf_eq_full_iff : supportOf o fs p = .fullSupport ↔ Serves o fs p := by
  rw [← supportType_eq_full_iff, supportType_eq_supportOf, Except.ok.injEq]

/-- Whether a pool is redundant in some model. -/
def HasSpare (o : Ontology) (fs : List Model) (p : Pool) : Prop :=
  ∃ m ∈ p.models.toList, Serves o fs (p.withoutOne m)

instance (o : Ontology) (fs : List Model) (p : Pool) : Decidable (HasSpare o fs p) :=
  inferInstanceAs (Decidable (∃ m ∈ p.models.toList, _))

theorem isRedundant_eq (o : Ontology) (fs : List Model) (p : Pool) :
    isRedundant o fs p = .ok (decide (HasSpare o fs p)) := by
  have hstep : (fun m => isSupporting o fs (p.withoutOne m)) =
      fun m => (pure (decide (Serves o fs (p.withoutOne m))) : Except RequestError Bool) :=
    funext fun m => isSupporting_eq
  rw [isRedundant, hstep, List.anyM_pure]
  refine congrArg Except.ok ?_
  rw [Bool.eq_iff_iff, List.any_eq_true, decide_eq_true_iff]
  simp [HasSpare]

/-- The entries of a pool that serve in part by themselves. -/
def partialEntries (o : Ontology) (fs : List Model) (p : Pool) : List (Model × UInt32) :=
  p.normalized.entries.filter fun e => supportOf o fs (.ofPairs [e]) == .partialSupport

theorem ownSupports_eq (o : Ontology) (fs : List Model) (p : Pool) : ownSupports o fs p =
    .ok (p.normalized.entries.map fun e => (e, supportOf o fs (.ofPairs [e]))) := by
  have hstep : (fun e : Model × UInt32 => (do
      return (e, ← modelSupportType o fs e.1 e.2) :
        Except RequestError ((Model × UInt32) × SupportType))) =
      fun e => pure (e, supportOf o fs (.ofPairs [e])) := by
    funext e
    rw [modelSupportType, supportType_eq_supportOf]
    rfl
  rw [ownSupports, hstep, List.mapM_pure]
  rfl

/-- What the test decides. -/
theorem isMinimal_eq (o : Ontology) (fs : List Model) (p : Pool) :
    isMinimal o fs p = .ok (decide (Serves o fs p ∧
      if ∃ e ∈ p.normalized.entries, Serves o fs (.ofPairs [e]) then
        p.distinctModels = 1 ∧ ¬ HasSpare o fs p.normalized
      else ¬ HasSpare o fs (.ofPairs (partialEntries o fs p)))) := by
  have hany : (p.normalized.entries.map fun e => (e, supportOf o fs (.ofPairs [e]))).any
      (·.2 == .fullSupport) = decide (∃ e ∈ p.normalized.entries, Serves o fs (.ofPairs [e])) := by
    rw [List.any_map, List.any_eq]
    simp [supportOf_eq_full_iff]
  have hpartial : (((p.normalized.entries.map fun e => (e, supportOf o fs (.ofPairs [e]))).filter
      (·.2 == .partialSupport)).map Prod.fst) = partialEntries o fs p := by
    rw [List.filter_map, List.map_map]
    exact List.map_id _
  rw [isMinimal, isSupporting_eq, ownSupports_eq]
  simp only [bind, Except.bind, pure, Except.pure, hany, hpartial, isRedundant_eq]
  by_cases hserves : Serves o fs p
  · by_cases hfull : ∃ e ∈ p.normalized.entries, Serves o fs (.ofPairs [e])
    · by_cases hone : p.distinctModels = 1
      · simp [hserves, hfull, hone]
      · simp [hserves, hfull, hone]
    · simp [hserves, hfull]
  · simp [hserves]

theorem isMinimal_eq_true_iff : isMinimal o fs p = .ok true ↔ Serves o fs p ∧
    if ∃ e ∈ p.normalized.entries, Serves o fs (.ofPairs [e]) then
      p.distinctModels = 1 ∧ ¬ HasSpare o fs p.normalized
    else ¬ HasSpare o fs (.ofPairs (partialEntries o fs p)) := by
  rw [isMinimal_eq, Except.ok.injEq, decide_eq_true_iff]

/-! ### Least pools -/

theorem withoutOne_isSubset (h : q.isSubset p = true) (m : Model) :
    (q.withoutOne m).isSubset (p.withoutOne m) = true := by
  rw [isSubset_iff] at h ⊢
  intro n
  have hn := UInt32.le_iff_toNat_le.1 (h n)
  rw [UInt32.le_iff_toNat_le]
  by_cases hnm : n = m
  · rw [hnm] at hn ⊢
    rw [count_withoutOne_self, count_withoutOne_self]
    omega
  · rwa [count_withoutOne_of_ne hnm, count_withoutOne_of_ne hnm]

theorem not_hasSpare_iff : ¬ HasSpare o fs p ↔
    ∀ m ∈ p.models, ¬ Serves o fs (p.withoutOne m) := by
  simp [HasSpare, OrderedSet.mem_def]

/-- A smaller pool has no spare instance if the larger one has none. -/
theorem IsLeast.not_hasSpare (h : IsLeast o fs p) (hq : q.IsNormal) (hle : q.isSubset p = true) :
    ¬ HasSpare o fs q := by
  rw [not_hasSpare_iff]
  intro m hm hserves
  have hq0 := hq.mem_models_iff.1 hm
  exact h.not_serves m (fun hzero => hq0 (count_eq_zero_of_isSubset hle hzero))
    (hserves.mono (withoutOne_isSubset hle m))

/-- Below every pool that serves there is a least one. -/
theorem exists_isLeast_subset (hp : p.IsNormal) (h : Serves o fs p) :
    ∃ q, q.IsNormal ∧ q.isSubset p = true ∧ IsLeast o fs q := by
  obtain ⟨q, hq, hle, hserves, hleast⟩ := exists_least_subset hp h
  refine ⟨q, hq, hle, hserves, fun m hm hless => ?_⟩
  have hcount : ∀ n, (q.withoutOne m).normalized.count n = (q.withoutOne m).count n :=
    fun _ => count_normalized ..
  have heq : (q.withoutOne m).normalized = q := by
    refine hleast _ (isNormal_normalized _) ?_ ((serves_congr hcount).2 hless)
    rw [isSubset_iff]
    intro n
    rw [hcount]
    exact isSubset_iff.1 (isOneLess_withoutOne hm).isSubset n
  have hone := (isOneLess_withoutOne hm).count_self
  rw [← hcount, heq] at hone
  omega

section Entries

variable {es : List (Model × UInt32)}

/-- The pool of some of the entries of a normal pool. -/
theorem ofPairs_of_sublist (hp : p.IsNormal) (h : es.Sublist p.entries) :
    (ofPairs es).IsNormal ∧ (ofPairs es).entries = es ∧ (ofPairs es).isSubset p = true := by
  have hne : ∀ e ∈ es, e.2 ≠ 0 := fun e he => hp e (h.subset he)
  rw [ofPairs_eq (p.counts.ascending.sublist h) hne]
  refine ⟨hne, rfl, List.all_eq_true.2 fun e he => decide_eq_true ?_⟩
  rw [count_eq_of_mem (h.subset he)]
  exact UInt32.le_refl _

theorem isNormal_ofPairs_singleton {e : Model × UInt32} (he : e.2 ≠ 0) :
    (ofPairs [e]).IsNormal := by
  have hne : ∀ f ∈ [e], f.2 ≠ 0 := by simpa using he
  rw [ofPairs_eq (List.pairwise_singleton _ e) hne]
  exact hne

theorem count_ofPairs_singleton {e : Model × UInt32} (he : e.2 ≠ 0) :
    (ofPairs [e]).count m = if m = e.1 then e.2 else 0 := by
  rw [ofPairs_eq (List.pairwise_singleton _ e) (by simpa using he)]
  show (OrderedMap.lookup m [e]).getD 0 = _
  rw [OrderedMap.lookup_cons]
  split <;> rfl

end Entries

/-- If one entry of a least pool serves by itself then it is the only one. -/
theorem IsLeast.distinctModels_eq (h : IsLeast o fs p) (hp : p.IsNormal)
    {e : Model × UInt32} (he : e ∈ p.entries) (hserves : Serves o fs (.ofPairs [e])) :
    p.distinctModels = 1 := by
  have honly : ∀ f ∈ p.entries, f = e := by
    intro f hf
    by_contra hne
    have hmodel : f.1 ≠ e.1 := by
      intro heq
      obtain ⟨-, hcf⟩ := hp.mem_entries_iff.1 hf
      obtain ⟨-, hce⟩ := hp.mem_entries_iff.1 he
      exact hne (Prod.ext heq (by rw [← hcf, ← hce, heq]))
    refine h.not_serves f.1 (by rw [count_eq_of_mem hf]; exact hp f hf) (hserves.mono ?_)
    rw [isSubset_iff]
    intro m
    rw [count_ofPairs_singleton (hp e he)]
    split
    · rename_i heq
      rw [heq, count_withoutOne_of_ne (Ne.symm hmodel), count_eq_of_mem he]
      exact UInt32.le_refl _
    · exact UInt32.zero_le
  have hnodup : p.entries.Nodup := List.Nodup.of_map _ (nodup_of_ascending p.counts.ascending)
  have hentries : p.entries = [e] := by
    refine List.perm_singleton.1 ((List.perm_ext_iff_of_nodup hnodup (List.nodup_singleton e)).2 ?_)
    intro f
    rw [List.mem_singleton]
    exact ⟨honly f, fun heq => heq ▸ he⟩
  rw [distinctModels, hentries, List.countP_singleton, if_pos (bne_iff_ne.2 (hp e he))]

/-- A least pool passes the test. -/
theorem isMinimal_of_isLeast (hp : p.IsNormal) (h : IsLeast o fs p) :
    isMinimal o fs p = .ok true := by
  rw [isMinimal_eq_true_iff, hp.normalized_eq]
  refine ⟨h.serves, ?_⟩
  split
  · rename_i hfull
    obtain ⟨e, he, hserves⟩ := hfull
    exact ⟨h.distinctModels_eq hp he hserves, h.not_hasSpare hp (isSubset_refl p)⟩
  · have hsub : (partialEntries o fs p).Sublist p.entries := by
      rw [partialEntries, hp.normalized_eq]
      exact List.filter_sublist
    obtain ⟨hnormal, -, hle⟩ := ofPairs_of_sublist hp hsub
    exact h.not_hasSpare hnormal hle

/-- A pool that passes the test is least if each of its entries gives some support. -/
theorem isLeast_of_isMinimal (hp : p.IsNormal) (h : isMinimal o fs p = .ok true)
    (hentries : ∀ e ∈ p.entries, supportOf o fs (.ofPairs [e]) ≠ .noSupport) :
    IsLeast o fs p := by
  rw [isMinimal_eq_true_iff, hp.normalized_eq] at h
  obtain ⟨hserves, htest⟩ := h
  have hspare : ¬ HasSpare o fs p := by
    split at htest
    · exact htest.2
    · rename_i hnone
      have hall : partialEntries o fs p = p.entries := by
        rw [partialEntries, hp.normalized_eq, List.filter_eq_self]
        intro e he
        cases hkind : supportOf o fs (.ofPairs [e]) with
        | noSupport => exact absurd hkind (hentries e he)
        | partialSupport => rfl
        | fullSupport => exact absurd ⟨e, he, supportOf_eq_full_iff.1 hkind⟩ hnone
      rwa [hall, ofPairs_entries hp] at htest
  exact ⟨hserves, fun m hm => not_hasSpare_iff.1 hspare m (mem_models_of_count_ne_zero hm)⟩

/-! ### What passes the test -/

/-- What is left of a pool if only the entries that serve in part by themselves are kept. -/
def partialPool (o : Ontology) (fs : List Model) (p : Pool) : Pool :=
  .ofPairs (partialEntries o fs p)

theorem partialPool_spec (o : Ontology) (fs : List Model) (p : Pool) :
    (partialPool o fs p).IsNormal ∧ (partialPool o fs p).isSubset p.normalized = true ∧ ∀ e,
      e ∈ (partialPool o fs p).entries ↔
        e ∈ p.normalized.entries ∧ supportOf o fs (.ofPairs [e]) = .partialSupport := by
  have hsub : (partialEntries o fs p).Sublist p.normalized.entries := List.filter_sublist
  obtain ⟨hnormal, hentries, hle⟩ := ofPairs_of_sublist (isNormal_normalized p) hsub
  refine ⟨hnormal, hle, fun e => ?_⟩
  rw [partialPool, hentries, partialEntries, List.mem_filter, beq_iff_eq]

theorem count_partialPool (o : Ontology) (fs : List Model) (p : Pool) (m : Model) :
    (partialPool o fs p).count m =
      if supportOf o fs (.ofPairs [(m, p.count m)]) = .partialSupport then p.count m else 0 := by
  obtain ⟨hnormal, hle, hmem⟩ := partialPool_spec o fs p
  by_cases hzero : p.count m = 0
  · rw [← count_normalized] at hzero
    rw [count_eq_zero_of_isSubset hle hzero, ← count_normalized p, hzero, ite_self]
  · have hentry : (m, p.count m) ∈ p.normalized.entries := by
      rw [← count_normalized] at hzero ⊢
      exact mem_entries_of_count_ne_zero hzero
    split
    · rename_i hpartial
      exact count_eq_of_mem ((hmem _).2 ⟨hentry, hpartial⟩)
    · rename_i hpartial
      by_contra hne
      obtain ⟨hcount, hkind⟩ := (hmem _).1 (mem_entries_of_count_ne_zero hne)
      rw [← count_eq_of_mem hcount, count_normalized] at hkind
      exact hpartial hkind

theorem isSubset_partialPool (o : Ontology) (fs : List Model) (p : Pool) :
    (partialPool o fs p).isSubset p = true := by
  have hle := (partialPool_spec o fs p).2.1
  rw [isSubset_iff] at hle ⊢
  simpa using hle

/-- Entries that give some support but not all are kept. -/
theorem count_partialPool_of_offered {a l : Model} (hl : l ∈ ownLabels o fs)
    (hneed : unitsFor o fs false l ≠ 0) (ha : unitsFor o [a] true l ≠ 0)
    (h : p.count a ≠ 0 → ¬ Serves o fs (.ofPairs [(a, p.count a)])) :
    (partialPool o fs p).count a = p.count a := by
  rw [count_partialPool]
  split
  · rfl
  · rename_i hpartial
    by_contra hne
    have hzero : p.count a ≠ 0 := Ne.symm hne
    have hcount : (ofPairs [(a, p.count a)]).count a ≠ 0 := by
      rwa [count_ofPairs_singleton hzero, if_pos rfl]
    cases hkind : supportOf o fs (.ofPairs [(a, p.count a)]) with
    | noSupport =>
      have hnone := supportType_eq_supportOf.trans (congrArg Except.ok hkind)
      exact ha (unitsFor_of_noSupport hnone hl hneed hcount)
    | partialSupport => exact hpartial hkind
    | fullSupport => exact h hzero (supportOf_eq_full_iff.1 hkind)

/-- If no entry serves by itself, those that give no support by themselves do not matter. -/
theorem serves_partialPool_withoutOne
    (h : ∀ a, p.count a ≠ 0 → ¬ Serves o fs (.ofPairs [(a, p.count a)])) (m : Model) :
    Serves o fs ((partialPool o fs p).withoutOne m) ↔ Serves o fs (p.withoutOne m) := by
  constructor
  · exact fun hserves => hserves.mono (withoutOne_isSubset (isSubset_partialPool o fs p) m)
  · intro hserves l hl
    by_cases hneed : unitsFor o fs false l = 0
    · rw [amount_need_eq_zero_iff.2 hneed]
      exact Nat.zero_le _
    · refine (hserves l hl).trans (supply_le_of_offered fun a ha => ?_)
      rw [count_withoutOne_congr (count_partialPool_of_offered hl hneed ha (h a))]
      exact UInt32.le_refl _

/-- One instance less of a model is the same pool whichever way it is written. -/
theorem forall_oneLess_iff {P : Model → Prop} :
    (∀ q m, IsOneLess q p m → P m → ¬ Serves o fs q) ↔
      ∀ m, p.count m ≠ 0 → P m → ¬ Serves o fs (p.withoutOne m) := by
  constructor
  · exact fun h m hm => h _ m (isOneLess_withoutOne hm)
  · intro h q m hq hP
    have hm : p.count m ≠ 0 := by
      intro hzero
      have hcount := hq.count_self
      rw [hzero, UInt32.toNat_zero] at hcount
      omega
    rw [serves_congr (hq.count_eq (isOneLess_withoutOne hm))]
    exact h m hm hP

theorem not_hasSpare_normalized_iff : ¬ HasSpare o fs p.normalized ↔
    ∀ m, p.count m ≠ 0 → ¬ Serves o fs (p.withoutOne m) := by
  rw [not_hasSpare_iff]
  refine forall_congr' fun m => ?_
  rw [(isNormal_normalized p).mem_models_iff, count_normalized,
    serves_congr fun a => count_withoutOne_congr (count_normalized p a) m]

theorem not_hasSpare_partialPool_iff
    (h : ∀ a, p.count a ≠ 0 → ¬ Serves o fs (.ofPairs [(a, p.count a)])) :
    ¬ HasSpare o fs (partialPool o fs p) ↔ ∀ m, p.count m ≠ 0 →
      supportOf o fs (.ofPairs [(m, p.count m)]) ≠ .noSupport →
        ¬ Serves o fs (p.withoutOne m) := by
  rw [not_hasSpare_iff]
  refine forall_congr' fun m => ?_
  rw [(partialPool_spec o fs p).1.mem_models_iff, count_partialPool,
    serves_partialPool_withoutOne h m]
  cases hkind : supportOf o fs (.ofPairs [(m, p.count m)]) with
  | noSupport => simp
  | partialSupport => simp
  | fullSupport =>
    have hzero : p.count m = 0 := by
      by_contra hne
      exact h m hne (supportOf_eq_full_iff.1 hkind)
    simp [hzero]

/-- The test passes a pool that serves just if it no longer does with one instance less of a model
that gives some support by itself, or of any model if one serves by itself. -/
theorem isMinimal_iff_oneLess (o : Ontology) (fs : List Model) (p : Pool) :
    ∃ answer, isMinimal o fs p = .ok answer ∧
      (answer = true ↔ supportType o fs p = .ok .fullSupport ∧ ∀ q m, IsOneLess q p m →
        (modelSupportType o fs m (p.count m) ≠ .ok .noSupport ∨
          ∃ a, p.count a ≠ 0 ∧ modelSupportType o fs a (p.count a) = .ok .fullSupport) →
        supportType o fs q ≠ .ok .fullSupport) := by
  have hkind : ∀ a, modelSupportType o fs a (p.count a) ≠ .ok .noSupport ↔
      supportOf o fs (.ofPairs [(a, p.count a)]) ≠ .noSupport := fun a => by
    rw [modelSupportType, supportType_eq_supportOf, ne_eq, Except.ok.injEq]
  refine ⟨_, isMinimal_eq o fs p, ?_⟩
  simp only [decide_eq_true_iff, hkind]
  simp only [modelSupportType, ne_eq, supportType_eq_full_iff]
  rw [forall_oneLess_iff]
  have hsingle : (∃ e ∈ p.normalized.entries, Serves o fs (.ofPairs [e])) ↔
      ∃ a, ¬ p.count a = 0 ∧ Serves o fs (.ofPairs [(a, p.count a)]) := exists_mem_normalized_iff
  refine and_congr_right fun hserves => ?_
  split
  · -- one model serves by itself, so in a least pool it is the only one
    rename_i hfull
    simp only [hsingle.1 hfull, or_true, true_imp_iff]
    rw [not_hasSpare_normalized_iff]
    refine and_iff_right_of_imp fun hspare => ?_
    obtain ⟨e, he, hentry⟩ := hfull
    have hleast : IsLeast o fs p.normalized := by
      refine ⟨(serves_congr (count_normalized p)).2 hserves, ?_⟩
      have hless := not_hasSpare_iff.1 (not_hasSpare_normalized_iff.2 hspare)
      exact fun m hm => hless m (mem_models_of_count_ne_zero hm)
    rw [← distinctModels_normalized]
    exact hleast.distinctModels_eq (isNormal_normalized p) he hentry
  · rename_i hnone
    rw [hsingle] at hnone
    simp only [hnone, or_false]
    exact not_hasSpare_partialPool_iff fun a ha hfull => hnone ⟨a, ha, hfull⟩

/-- Inspecting takes a camera and a lidar. Rovers have the one and drones the other, and a dock has
neither. -/
def camerasAndLidars : CatalogDraft :=
  (((({} : CatalogDraft).has ⟨"Inspect"⟩ ⟨"Camera"⟩ 1 1).has ⟨"Inspect"⟩ ⟨"Lidar"⟩ 1 1).has
    ⟨"Rover"⟩ ⟨"Camera"⟩ 0 1).has ⟨"Drone"⟩ ⟨"Lidar"⟩ 0 1

/-- A rover and a drone, and a dock besides. -/
def dockedCrew : Pool := .ofPairs [(⟨"Dock"⟩, 1), (⟨"Drone"⟩, 1), (⟨"Rover"⟩, 1)]

/-- The dock can be spared, but it gives no support by itself. -/
theorem isMinimal_dockedCrew :
    isMinimal camerasAndLidars.build.ontology [⟨"Inspect"⟩] dockedCrew = .ok true ∧
      ∃ q, IsOneLess q dockedCrew ⟨"Dock"⟩ ∧
        supportType camerasAndLidars.build.ontology [⟨"Inspect"⟩] q = .ok .fullSupport := by
  refine ⟨?_, dockedCrew.withoutOne ⟨"Dock"⟩, isOneLess_withoutOne (by decide +kernel), ?_⟩
  · rw [isMinimal_eq_true_iff]
    decide +kernel
  · rw [supportType_eq_full_iff]
    decide +kernel

end Muster.Pool
