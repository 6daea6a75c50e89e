import Muster.Proofs.Functionality.Minimal

/-!
What a request for a mapping answers. Restrictions never cancel out, so what models need and offer
can always be worked out, and with it how well a pool serves and whether it is minimal. A request
without a time limit therefore fails only if it names no pool or no functionality. The mapping that
it answers without saturation bounds holds just the pools that serve, in both directions.

Main statements: `ofModels_ok`, `minimalOf_spec`, `functionalityMapping_eq_error_iff`,
`mem_poolsOf_iff_supportType`.
-/

namespace Muster

/-! ### What always succeeds -/

/-- What models need or offer can be worked out over any labels. -/
theorem SupportVector.ofModels_ok (o : Ontology) (models labels : List Model) (offered : Bool) :
    ∃ v, ofModels o models labels offered = .ok v := by
  rw [ofModels]
  cases h : joinedBounds o models with
  | none => exact ⟨_, rfl⟩
  | some bounds =>
    simp only [joinedBounds_ne_empty h, Bool.false_eq_true, if_false]
    exact ⟨_, rfl⟩

/-- A filter that never fails keeps what it should. -/
theorem filterAuxM_ok {ε α : Type} {p : α → Except ε Bool} {q : α → Bool}
    (h : ∀ a, p a = .ok (q a)) : ∀ (xs kept : List α),
    xs.filterAuxM p kept = .ok ((xs.filter q).reverse ++ kept)
  | [], kept => rfl
  | a :: xs, kept => by
    rw [List.filterAuxM, h a]
    show xs.filterAuxM p (bif q a then a :: kept else kept) = _
    rw [filterAuxM_ok h xs]
    cases hq : q a <;> simp [hq]

namespace Pool

open SupportVector

variable {o : Ontology} {c : MappingConfig} {clock : Clock} {pool : Pool} {fs : List Model}

/-- The minimal pools of a set can be sorted out. -/
theorem minimalOf_spec (o : Ontology) (fs : List Model) (pools : PoolSet) :
    ∃ kept, minimalOf o fs pools = .ok kept ∧
      ∀ p, p ∈ kept ↔ p ∈ pools ∧ p.isMinimal o fs = .ok true := by
  have hminimal := isMinimal_eq o fs
  rw [minimalOf, List.filterM, filterAuxM_ok hminimal]
  refine ⟨_, rfl, fun p => ?_⟩
  rw [OrderedSet.mem_ofList, List.append_nil, List.reverse_reverse, List.mem_filter, hminimal,
    Except.ok.injEq]
  rfl

/-! ### Requests -/

theorem functionalityMapping_eq (hpool : pool.isEmpty = false) (hfs : fs ≠ [])
    (useSaturation : Bool) : functionalityMapping o c clock pool fs useSaturation =
      if useSaturation then minimalMapping o c clock pool fs
      else fullMapping o c clock pool fs := by
  have hsome : fs.isEmpty = false := List.isEmpty_eq_false_iff.2 hfs
  rw [functionalityMapping, hpool, hsome, if_neg Bool.false_ne_true, if_neg Bool.false_ne_true]

/-- Without a time limit there is a mapping for some functionalities and a pool with entries. -/
theorem functionalityMapping_ok (o : Ontology) (clock : Clock) (hpool : pool.isEmpty = false)
    (hfs : fs ≠ []) (htime : c.timeLimit = none) (useSaturation : Bool) :
    ∃ m, functionalityMapping o c clock pool fs useSaturation = .ok m := by
  obtain ⟨limits, hlimits, -⟩ := saturationBound_all hpool o fs
  rw [functionalityMapping_eq hpool hfs]
  cases useSaturation with
  | true => exact (minimalMapping_spec hpool hlimits).succeeds htime
  | false => exact fullMapping_spec.succeeds htime

/-- A request without a time limit fails just if it names no pool or no functionality, and then it
says so. Nothing that has to be worked out for it can fail. -/
theorem functionalityMapping_eq_error_iff (htime : c.timeLimit = none) (clock : Clock)
    (o : Ontology) (pool : Pool) (fs : List Model) (useSaturation : Bool) :
    (∀ e, functionalityMapping o c clock pool fs useSaturation = .error e ↔
      pool.isEmpty = true ∧ e = .invalidArgument "model pool is empty" pool fs ∨
      pool.isEmpty = false ∧ fs = [] ∧ e = .invalidArgument "no functionalities given" pool fs) ∧
    (∀ models labels offered, ∃ v, ofModels o models labels offered = .ok v) ∧
    (∀ gs p, (∃ t, supportType o gs p = .ok t) ∧ ∃ b, isMinimal o gs p = .ok b) ∧
    ∀ gs pools, ∃ kept, minimalOf o gs pools = .ok kept := by
  refine ⟨fun e => ?_, ofModels_ok o,
    fun gs p => ⟨supportType_ok o gs p, _, isMinimal_eq o gs p⟩, fun gs pools => ?_⟩
  · cases hpool : pool.isEmpty with
    | true => simp [functionalityMapping, hpool, eq_comm]
    | false =>
      by_cases hfs : fs = []
      · simp [functionalityMapping, hpool, hfs, eq_comm]
      · obtain ⟨m, hm⟩ := functionalityMapping_ok o clock hpool hfs htime useSaturation
        simp [hm, hfs]
  · obtain ⟨kept, hkept, -⟩ := minimalOf_spec o gs pools
    exact ⟨kept, hkept⟩

theorem functionalityMapping_eq_error_iff_noRovers : ({} : MappingConfig).timeLimit = none ∧
    functionalityMapping roversWithArms.build.ontology {} stopped .empty [⟨"Dig"⟩] true =
      .error (.invalidArgument "model pool is empty" .empty [⟨"Dig"⟩]) :=
  ⟨rfl, ((functionalityMapping_eq_error_iff (c := {}) rfl stopped roversWithArms.build.ontology
    .empty [⟨"Dig"⟩] true).1 _).2 (.inl ⟨rfl, rfl⟩)⟩

/-- Without limits and saturation bounds the pools that are noted for a functionality are just those
within the pool that serve it fully, and a pool is listed for just the functionalities that it is
noted for. -/
theorem mem_poolsOf_iff_supportType (hpool : pool.isEmpty = false) (hfs : fs ≠ [])
    (hlimit : c.combinationLimit = none) (htime : c.timeLimit = none) (clock : Clock)
    (o : Ontology) : ∃ m, functionalityMapping o c clock pool fs false = .ok m ∧
      (∀ f ∈ fs, ∀ p, p ∈ m.poolsOf f ↔ p.IsNormal ∧ p.isEmpty = false ∧
        p.isSubset pool = true ∧ supportType o [f] p = .ok .fullSupport) ∧
      ∀ p f, f ∈ m.functionalitiesOf p ↔ f ∈ fs ∧ p.normalized ∈ m.poolsOf f := by
  have hmaps : Maps _ _ c (fullMapping o c clock pool fs) := fullMapping_spec
  obtain ⟨m, hm⟩ := hmaps.succeeds htime
  have hmem := hmaps.mem_iff m hm
  refine ⟨m, (functionalityMapping_eq hpool hfs false).trans hm, fun f hf p => ?_, fun p f => ?_⟩
  · rw [hmem, MappingConfig.mem_combinations_iff hlimit, ← supportType_eq_full_iff]
    tauto
  · rw [hmaps.isMutual m hm]
    exact (and_iff_right_of_imp fun hp => ((hmem _ _).1 hp).1).symm

/-- Three rovers, and an entry without instances. -/
def roversAndNoDock : Pool := .ofPairs [(⟨"Dock"⟩, 0), (⟨"Rover"⟩, 3)]

/-- Two rovers dig and one does not; entries without instances do not matter for a look-up. -/
theorem mem_poolsOf_iff_supportType_rovers : ∃ m,
    functionalityMapping roversWithArms.build.ontology {} stopped roversAndNoDock [⟨"Dig"⟩] false =
      .ok m ∧ rovers 2 ∈ m.poolsOf ⟨"Dig"⟩ ∧ rovers 1 ∉ m.poolsOf ⟨"Dig"⟩ ∧
    ⟨"Dig"⟩ ∈ m.functionalitiesOf roversAndNoDock := by
  obtain ⟨m, hm, hmem, hmutual⟩ := mem_poolsOf_iff_supportType (c := {})
    (by decide +kernel : roversAndNoDock.isEmpty = false) (List.cons_ne_nil ⟨"Dig"⟩ []) rfl rfl
    stopped roversWithArms.build.ontology
  have hdig := hmem _ (List.mem_singleton_self _)
  refine ⟨m, hm, (hdig _).2 ⟨isNormal_ofPairs_singleton (by decide), ?_, ?_, ?_⟩, fun hone => ?_,
    (hmutual _ _).2 ⟨List.mem_singleton_self _, (hdig _).2 ⟨isNormal_normalized _, ?_, ?_, ?_⟩⟩⟩
  · decide +kernel
  · decide +kernel
  · decide +kernel
  · exact absurd ((hdig _).1 hone).2.2.2 (by decide +kernel)
  · decide +kernel
  · decide +kernel
  · decide +kernel

end Pool
end Muster
