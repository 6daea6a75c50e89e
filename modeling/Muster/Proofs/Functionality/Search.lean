import Muster.Proofs.Functionality.Mapping
import Muster.Proofs.Pool.Listing
import Muster.Proofs.Support.Minimal
import Muster.Proofs.Support.Saturation

/-!
What the searches for pools find. A step of a search keeps what it is about and notes some pools;
without a time limit it always succeeds. So a whole search, which is a fold of steps, notes just the
pools that some step of it notes.

Main statements: `mem_combinations_iff`, `yields_foldlM`, `minimalMapping_spec`, `fullMapping_spec`.
-/

namespace Muster

/-! ### The pools that are tried -/

namespace MappingConfig

variable {c : MappingConfig} {bound p : Pool}

/-- The pools that are tried are those within the bound, up to the limit. -/
theorem toList_combinations (c : MappingConfig) (bound : Pool) :
    (c.combinations bound).toList =
      upTo c.combinationLimit (Enumeration.poolsWithin bound bound.totalAtoms .max) := by
  rw [← Enumeration.toList_limited, combinations]
  cases c.combinationLimit <;> rfl

theorem mem_poolsWithin : p ∈ Enumeration.poolsWithin bound bound.totalAtoms .max ↔
    p.IsNormal ∧ p.isSubset bound = true ∧ p.isEmpty = false := by
  rw [(Enumeration.listsPools_poolsWithin bound bound.totalAtoms .max).mem_iff]
  constructor
  · rintro ⟨hp, hsome, hle, -⟩
    exact ⟨hp, hle, hsome⟩
  · rintro ⟨hp, hle, hsome⟩
    exact ⟨hp, hsome, hle, Pool.totalAtoms_le hp hle⟩

/-- Only normal pools within the bound are tried, none of them empty. -/
theorem of_mem_combinations (h : p ∈ (c.combinations bound).toList) :
    p.IsNormal ∧ p.isSubset bound = true ∧ p.isEmpty = false := by
  rw [toList_combinations] at h
  exact mem_poolsWithin.1 ((upTo_sublist _ _).subset h)

/-- Without a limit all of them are tried. -/
theorem mem_combinations_iff (hc : c.combinationLimit = none) :
    p ∈ (c.combinations bound).toList ↔
      p.IsNormal ∧ p.isSubset bound = true ∧ p.isEmpty = false := by
  rw [toList_combinations, hc]
  exact mem_poolsWithin

end MappingConfig

/-! ### Noting pools -/

namespace MappingSearch

variable {o : Ontology} {c : MappingConfig} {clock : Clock} {s s' s'' : MappingSearch}
  {P Q : Pool → Model → Prop} {p q : Pool} {f g : Model}

/-- What a search is about. -/
structure IsFor (s : MappingSearch) (o : Ontology) (c : MappingConfig) (clock : Clock) : Prop where
  ontology_eq : s.ontology = o
  config_eq : s.config = c
  clock_eq : s.clock = clock

/-- A search goes on as it is, with more pools noted. -/
structure Adds (P : Pool → Model → Prop) (s s' : MappingSearch) : Prop where
  isFor : s'.IsFor s.ontology s.config s.clock
  bound_eq : s'.mapping.bound = s.mapping.bound
  grows : s.mapping.Grows s'.mapping
  mem_iff : ∀ p f, p ∈ s'.mapping.poolsOf f ↔ p ∈ s.mapping.poolsOf f ∨ P p f

theorem IsFor.of_adds (h : s.IsFor o c clock) (hadds : Adds P s s') : s'.IsFor o c clock :=
  ⟨hadds.isFor.ontology_eq.trans h.ontology_eq, hadds.isFor.config_eq.trans h.config_eq,
    hadds.isFor.clock_eq.trans h.clock_eq⟩

theorem Adds.trans (h : Adds P s s') (h' : Adds Q s' s'') :
    Adds (fun p f => P p f ∨ Q p f) s s'' := by
  refine ⟨⟨?_, ?_, ?_⟩, h'.bound_eq.trans h.bound_eq, h.grows.trans h'.grows, fun p f => ?_⟩
  · exact h'.isFor.ontology_eq.trans h.isFor.ontology_eq
  · exact h'.isFor.config_eq.trans h.isFor.config_eq
  · exact h'.isFor.clock_eq.trans h.isFor.clock_eq
  · rw [h'.mem_iff, h.mem_iff, or_assoc]

theorem Adds.refl (s : MappingSearch) : Adds (fun _ _ => False) s s :=
  ⟨⟨rfl, rfl, rfl⟩, rfl, .refl, fun _ _ => (or_false _).symm.to_iff⟩

theorem Adds.congr (h : Adds P s s') (hiff : ∀ p f, P p f ↔ Q p f) : Adds Q s s' :=
  ⟨h.isFor, h.bound_eq, h.grows, fun p f => by rw [h.mem_iff, hiff]⟩

/-- What comes of a step: pools are noted if it succeeds, and without a time limit it does. -/
structure Yields (P : Pool → Model → Prop) (s : MappingSearch)
    (r : Except RequestError MappingSearch) : Prop where
  adds : ∀ s', r = .ok s' → Adds P s s'
  succeeds : s.timer = none → ∃ s', r = .ok s' ∧ s'.timer = none

theorem Yields.congr {r : Except RequestError MappingSearch} (h : Yields P s r)
    (hiff : ∀ p f, P p f ↔ Q p f) : Yields Q s r :=
  ⟨fun s' hs' => (h.adds s' hs').congr hiff, h.succeeds⟩

/-- A step after another that notes nothing. -/
theorem Adds.yields {r : Except RequestError MappingSearch} (h : Adds (fun _ _ => False) s s')
    (htimer : s'.timer = s.timer) (h' : Yields P s' r) : Yields P s r :=
  ⟨fun s'' hs'' => (h.trans (h'.adds s'' hs'')).congr fun _ _ => or_iff_right not_false,
    fun hnone => h'.succeeds (htimer.trans hnone)⟩

/-- A step after another. -/
theorem Yields.bind {r : Except RequestError MappingSearch}
    {k : MappingSearch → Except RequestError MappingSearch} (h : Yields P s r)
    (hk : ∀ s', Adds P s s' → Yields Q s' (k s')) :
    Yields (fun p f => P p f ∨ Q p f) s (r >>= k) := by
  constructor
  · intro s'' hs''
    cases r with
    | error e => exact absurd hs'' (by simp [Bind.bind, Except.bind])
    | ok s' =>
      have hadds := h.adds s' rfl
      exact hadds.trans ((hk s' hadds).adds s'' hs'')
  · intro htimer
    obtain ⟨s', rfl, htimer'⟩ := h.succeeds htimer
    exact (hk s' (h.adds s' rfl)).succeeds htimer'

/-- A fold of steps notes what some step of it notes. -/
theorem yields_foldlM {α : Type} {step : MappingSearch → α → Except RequestError MappingSearch}
    {P : α → Pool → Model → Prop} : ∀ {xs : List α} {s : MappingSearch}, s.IsFor o c clock →
    (∀ x ∈ xs, ∀ s : MappingSearch, s.IsFor o c clock → Yields (P x) s (step s x)) →
    Yields (fun p f => ∃ x ∈ xs, P x p f) s (xs.foldlM step s)
  | [], s, _, _ => by
    refine ⟨fun s' hs' => ?_, fun htimer => ⟨s, rfl, htimer⟩⟩
    obtain rfl := Except.ok.inj hs'
    exact ⟨⟨rfl, rfl, rfl⟩, rfl, .refl, fun p f => by simp⟩
  | x :: xs, s, hs, hstep => by
    rw [List.foldlM_cons]
    have hfirst := hstep x List.mem_cons_self s hs
    refine (hfirst.bind fun s' hadds => yields_foldlM (hs.of_adds hadds) fun y hy =>
      hstep y (List.mem_cons_of_mem x hy)).congr fun p f => ?_
    rw [List.exists_mem_cons_iff]

/-! ### Steps -/

theorem yields_candidate (s : MappingSearch) : Yields (fun _ _ => False) s s.candidate := by
  rw [candidate, checkTime]
  cases htimer : s.timer with
  | none =>
    refine ⟨fun s' hs' => ?_, fun _ => ⟨_, rfl, htimer⟩⟩
    obtain rfl := Except.ok.inj hs'
    exact ⟨⟨rfl, rfl, rfl⟩, rfl, .single (.tallied _), fun p f => (or_false _).symm.to_iff⟩
  | some t =>
    refine ⟨fun s' hs' => ?_, fun h => absurd (htimer.symm.trans h) (by simp)⟩
    simp only at hs'
    split at hs'
    · exact absurd hs' (by simp [bind, Except.bind])
    · obtain rfl := Except.ok.inj hs'
      exact ⟨⟨rfl, rfl, rfl⟩, rfl, .single (.tallied _), fun p f => (or_false _).symm.to_iff⟩

theorem adds_found (s : MappingSearch) (p : Pool) (f : Model) :
    Adds (fun q g => q = p.normalized ∧ g = f) s (s.found p f) :=
  ⟨⟨rfl, rfl, rfl⟩, rfl, .tail (.single (.tallied _)) (.add _ _),
    fun _ _ => FunctionalityMapping.mem_poolsOf_add⟩

/-- A step that only counts. -/
theorem adds_tallied (s : MappingSearch) (k : SearchStatistics → SearchStatistics) :
    Adds (fun _ _ => False) s (s.update (·.tallied k)) :=
  ⟨⟨rfl, rfl, rfl⟩, rfl, .single (.tallied k), fun _ _ => (or_false _).symm.to_iff⟩

theorem yields_ok (hadds : Adds P s s') (htimer : s'.timer = s.timer) : Yields P s (.ok s') := by
  refine ⟨fun s'' hs'' => ?_, fun h => ⟨s', rfl, htimer.trans h⟩⟩
  obtain rfl := Except.ok.inj hs''
  exact hadds

/-- What `tryMinimal` notes for a pool that it is given. -/
def NotesMinimal (o : Ontology) (c : MappingConfig) (clock : Clock) (f : Model) (p q : Pool)
    (g : Model) : Prop :=
  q = p.normalized ∧ g = f ∧ p.isMinimal o [f] = .ok true ∧
    (c.checkWiring = true → p.isWirable o c.wiring clock = true)

theorem yields_tryMinimal (hs : s.IsFor o c clock) (p : Pool) :
    Yields (NotesMinimal o c clock f p) s (tryMinimal f s p) := by
  rw [tryMinimal]
  refine ((yields_candidate s).bind (Q := NotesMinimal o c clock f p) fun s' hadds => ?_).congr
    fun q g => or_iff_right not_false
  have htallied := adds_tallied s' (·.countEvaluation)
  have hs' := (hs.of_adds hadds).of_adds htallied
  refine htallied.yields rfl ?_
  generalize s'.update (·.tallied (·.countEvaluation)) = t at hs' ⊢
  obtain ⟨rfl, rfl, rfl⟩ := hs'
  have hskip : (∀ q g, ¬ NotesMinimal t.ontology t.config t.clock f p q g) →
      Yields (NotesMinimal t.ontology t.config t.clock f p) t (.ok t) := by
    intro hnone
    exact yields_ok ((Adds.refl t).congr fun q g => (iff_false_intro (hnone q g)).symm) rfl
  obtain ⟨b, hb⟩ : ∃ b, p.isMinimal t.ontology [f] = .ok b := ⟨_, Pool.isMinimal_eq _ [f] p⟩
  simp only [hb, bind, Except.bind, pure, Except.pure]
  cases b with
  | false =>
    refine hskip fun q g h => ?_
    rw [h.2.2.1] at hb
    exact absurd (Except.ok.inj hb) (by simp)
  | true =>
    simp only [Bool.not_true, Bool.false_eq_true, if_false]
    split
    · rename_i hwire
      refine hskip fun q g h => ?_
      rw [Bool.and_eq_true, Bool.not_eq_true'] at hwire
      exact Bool.false_ne_true (hwire.2.symm.trans (h.2.2.2 hwire.1))
    · rename_i hwire
      refine yields_ok ((adds_found t p f).congr fun q g => ?_) rfl
      refine and_congr_right fun _ => (and_iff_left ⟨hb, fun hcheck => ?_⟩).symm
      simpa [hcheck] using hwire

/-- What `tryServing` notes for a pool that it is given. -/
def NotesServing (o : Ontology) (f : Model) (p q : Pool) (g : Model) : Prop :=
  q = p.normalized ∧ g = f ∧ Pool.Serves o [f] p

theorem yields_tryServing (hs : s.IsFor o c clock) (p : Pool) :
    Yields (NotesServing o f p) s (tryServing p s f) := by
  obtain ⟨rfl, rfl, rfl⟩ := hs
  rw [tryServing]
  simp only [update, Pool.isSupporting_eq, bind, Except.bind, pure, Except.pure]
  split
  · rename_i hserves
    refine yields_ok (((adds_tallied s _).trans (adds_found _ p f)).congr fun q g => ?_) rfl
    rw [or_iff_right not_false, NotesServing]
    exact and_congr_right fun _ => (and_iff_left (of_decide_eq_true hserves)).symm
  · rename_i hno
    refine yields_ok ((adds_tallied s _).congr fun q g => ?_) rfl
    exact (iff_false_intro fun h => hno (decide_eq_true h.2.2)).symm

theorem yields_tryAll {fs : List Model} (hs : s.IsFor o c clock) (p : Pool) :
    Yields (fun q g => ∃ f ∈ fs, NotesServing o f p q g) s (tryAll fs s p) := by
  rw [tryAll]
  refine ((yields_candidate s).bind fun s' hadds =>
    yields_foldlM (P := fun f q g => NotesServing o f p q g) (hs.of_adds hadds)
      fun f _ s hs => yields_tryServing hs p).congr fun q g => or_iff_right not_false

/-! ### Searches -/

section Searches

variable {pool bounded limits : Pool} {fs : List Model}

theorem combinations_of_isNull (h : bounded.isNull = true) :
    p ∉ (c.combinations bounded).toList := by
  intro hp
  obtain ⟨hnormal, hle, hsome⟩ := MappingConfig.of_mem_combinations hp
  have hempty : p.isEmpty = true := hnormal.isEmpty_iff.2 fun m =>
    Pool.count_eq_zero_of_isSubset hle (Pool.isNull_iff.1 h m)
  exact Bool.false_ne_true (hsome.symm.trans hempty)

theorem yields_searchBounded (hs : s.IsFor o c clock)
    (hlimits : (⟨f, []⟩ : Resource).saturationBound o pool = .ok limits) :
    Yields (fun q g => ∃ p ∈ (c.combinations (bounded.min limits)).toList,
      NotesMinimal o c clock f p q g) s (searchBounded pool bounded s f) := by
  obtain ⟨rfl, rfl, rfl⟩ := hs
  rw [searchBounded, hlimits]
  simp only [bind, Except.bind, pure, Except.pure]
  split
  · rename_i hnull
    refine yields_ok ⟨⟨rfl, rfl, rfl⟩, rfl, .refl, fun q g => ?_⟩ rfl
    refine (or_iff_left ?_).symm
    rintro ⟨p, hp, -⟩
    exact combinations_of_isNull hnull hp
  · rw [Enumeration.foldAll_eq_foldlM]
    exact yields_foldlM ⟨rfl, rfl, rfl⟩ fun p _ s hs => yields_tryMinimal hs p

end Searches

end MappingSearch

/-! ### Mappings -/

namespace Pool

open MappingSearch SupportVector

variable {o : Ontology} {c : MappingConfig} {clock : Clock} {pool bound limits : Pool}
  {fs : List Model} {P : Pool → Model → Prop} {p : Pool} {f : Model}

/-- What comes of a search: a mapping that holds just some pools, in both directions, and without a
time limit always a mapping. -/
structure Maps (P : Pool → Model → Prop) (bound : Pool) (c : MappingConfig)
    (r : Except RequestError FunctionalityMapping) : Prop where
  bound_eq : ∀ m, r = .ok m → m.bound = bound
  isMutual : ∀ m, r = .ok m → m.IsMutual
  mem_iff : ∀ m, r = .ok m → ∀ p f, p ∈ m.poolsOf f ↔ P p f
  succeeds : c.timeLimit = none → ∃ m, r = .ok m

theorem not_mem_poolsOf_mappingSearch :
    p ∉ (mappingSearch o c clock pool fs bound).mapping.poolsOf f := by
  intro hp
  rw [mappingSearch, FunctionalityMapping.poolsOf] at hp
  exact List.not_mem_nil hp

theorem isMutual_mappingSearch : (mappingSearch o c clock pool fs bound).mapping.IsMutual :=
  fun _ _ => iff_of_false List.not_mem_nil not_mem_poolsOf_mappingSearch

theorem maps_of_yields {r : Except RequestError MappingSearch}
    (h : Yields P (mappingSearch o c clock pool fs bound) r) :
    Maps P bound c (do return (← r).mapping) := by
  have hend : ∀ m, (do return (← r).mapping : Except RequestError FunctionalityMapping) = .ok m →
      ∃ s, r = .ok s ∧ s.mapping = m := by
    intro m hm
    cases r with
    | error e => exact absurd hm (by simp [bind, Except.bind])
    | ok s => exact ⟨s, rfl, Except.ok.inj hm⟩
  refine ⟨fun m hm => ?_, fun m hm => ?_, fun m hm p f => ?_, fun hlimit => ?_⟩
  · obtain ⟨s, hs, rfl⟩ := hend m hm
    exact (h.adds s hs).bound_eq
  · obtain ⟨s, hs, rfl⟩ := hend m hm
    exact isMutual_mappingSearch.grows (h.adds s hs).grows
  · obtain ⟨s, hs, rfl⟩ := hend m hm
    rw [(h.adds s hs).mem_iff, or_iff_right not_mem_poolsOf_mappingSearch]
  · have htimer : (mappingSearch o c clock pool fs bound).timer = none := by
      rw [mappingSearch, MappingConfig.timer, hlimit]
      rfl
    obtain ⟨s, rfl, -⟩ := h.succeeds htimer
    exact ⟨s.mapping, rfl⟩

/-- A search that can be evaluated. -/
theorem exists_ok_of_any {ε α : Type} {r : Except ε α} {test : α → Bool}
    (h : r.toOption.any test = true) : ∃ a, r = .ok a ∧ test a = true := by
  cases r with
  | error e => exact absurd h (by simp [Except.toOption])
  | ok a => exact ⟨a, rfl, h⟩

/-- A pool that `minimalMapping` tries for a functionality and finds minimal. -/
structure IsFoundMinimal (o : Ontology) (c : MappingConfig) (clock : Clock) (pool bound : Pool)
    (p : Pool) (f : Model) : Prop where
  tried : ∃ own, (⟨f, []⟩ : Resource).saturationBound o pool = .ok own ∧
    p ∈ (c.combinations (bound.min own)).toList
  isMinimal : p.isMinimal o [f] = .ok true
  isWirable : c.checkWiring = true → p.isWirable o c.wiring clock = true

/-- The mapping with saturation bounds. -/
theorem minimalMapping_spec (hpool : pool.isEmpty = false)
    (hlimits : pool.saturationBound o (fs.map fun f => ⟨f, []⟩) = .ok limits) :
    Maps (fun p f => f ∈ fs ∧ IsFoundMinimal o c clock pool (pool.min limits) p f)
      (pool.min limits) c (minimalMapping o c clock pool fs) := by
  rw [minimalMapping, hlimits]
  simp only [bind, Except.bind, pure, Except.pure]
  split
  · rename_i hnull
    refine ⟨fun m hm => ?_, fun m hm => ?_, fun m hm p f => ?_, fun _ => ⟨_, rfl⟩⟩
    · obtain rfl := Except.ok.inj hm
      rfl
    · obtain rfl := Except.ok.inj hm
      exact isMutual_mappingSearch
    · obtain rfl := Except.ok.inj hm
      refine iff_of_false not_mem_poolsOf_mappingSearch ?_
      rintro ⟨-, ⟨own, -, hp⟩, -, -⟩
      exact combinations_of_isNull (isNull_min hnull) hp
  · refine maps_of_yields ((yields_foldlM (P := fun f q g => ∃ p, IsFoundMinimal o c clock pool
      (pool.min limits) p f ∧ q = p ∧ g = f) ⟨rfl, rfl, rfl⟩ fun f _ s hs => ?_).congr ?_)
    · obtain ⟨own, hown, -⟩ := saturationBound_plain hpool o f
      refine (yields_searchBounded hs hown).congr fun q g => ?_
      constructor
      · rintro ⟨p, hp, rfl, rfl, hminimal, hwirable⟩
        rw [(MappingConfig.of_mem_combinations hp).1.normalized_eq]
        exact ⟨p, ⟨⟨own, hown, hp⟩, hminimal, hwirable⟩, rfl, rfl⟩
      · rintro ⟨p, ⟨⟨own', hown', hp⟩, hminimal, hwirable⟩, rfl, rfl⟩
        obtain rfl := Except.ok.inj (hown.symm.trans hown')
        have hnormal := (MappingConfig.of_mem_combinations hp).1
        exact ⟨q, hp, hnormal.normalized_eq.symm, rfl, hminimal, hwirable⟩
    · intro q g
      constructor
      · rintro ⟨f, hf, p, hp, rfl, rfl⟩
        exact ⟨hf, hp⟩
      · rintro ⟨hf, hp⟩
        exact ⟨g, hf, q, hp, rfl, rfl⟩

/-- The mapping without saturation bounds. -/
theorem fullMapping_spec : Maps (fun p f => f ∈ fs ∧ p ∈ (c.combinations pool).toList ∧
    Serves o [f] p) pool c (fullMapping o c clock pool fs) := by
  rw [fullMapping, Enumeration.foldAll_eq_foldlM]
  refine maps_of_yields ((yields_foldlM ⟨rfl, rfl, rfl⟩ fun p _ s hs =>
    yields_tryAll hs p).congr fun q g => ?_)
  constructor
  · rintro ⟨p, hp, f, hf, rfl, rfl, hserves⟩
    rw [(MappingConfig.of_mem_combinations hp).1.normalized_eq]
    exact ⟨hf, hp, hserves⟩
  · rintro ⟨hf, hp, hserves⟩
    have hnormal := (MappingConfig.of_mem_combinations hp).1
    exact ⟨q, hp, g, hf, hnormal.normalized_eq.symm, rfl, hserves⟩

end Pool
end Muster
