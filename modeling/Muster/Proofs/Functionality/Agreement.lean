import Muster.Proofs.Functionality.Answers

/-!
How the searches with and without saturation bounds agree. What the bounded search finds serves, and
so does every larger pool, so the other search finds it. For the converse, a pool that serves has a
least pool below it. A least pool is within the bounds if they are full: if embedding the classes
lowers no largest ratio and all numbers are exact. Nothing is least for a functionality that needs
nothing, as the empty pool serves it.

Main statements: `IsLeast.isSubset_of_hasFullBounds`, `isFoundMinimal_of_isLeast`,
`mem_poolsOf_iff_exists_subset`.
-/

namespace Muster

namespace SupportVector

variable {o : Ontology} {pool : Pool} {need offer : SupportVector} {labels : List Model}

/-- Whether embedding the classes leaves a bound as large as the plain ratios ask for. -/
def KeepsBound (o : Ontology) (need offer : SupportVector) : Prop :=
  ratioBound (need.ratios offer) ≤ ratioBound ((need.embedClasses o).ratios (offer.embedClasses o))

instance (o : Ontology) (need offer : SupportVector) : Decidable (KeepsBound o need offer) :=
  inferInstanceAs (Decidable (_ ≤ _))

/-- Whether the bounds of the models of a pool are all that a need asks for: the numbers are exact,
and embedding the classes does not lower a bound. -/
structure HasFullBounds (o : Ontology) (pool : Pool) (need : SupportVector) : Prop where
  need_isExact : need.IsExact
  offer_isExact : ∀ m ∈ pool.models, ∀ offer, ofModels o [m] need.labels true = .ok offer →
    offer.IsExact
  keepsBound : ∀ m ∈ pool.models, ∀ offer, ofModels o [m] need.labels true = .ok offer →
    KeepsBound o need offer

instance (o : Ontology) (pool : Pool) (need : SupportVector) :
    Decidable (HasFullBounds o pool need) :=
  decidable_of_iff (need.IsExact ∧ ∀ m ∈ pool.models.toList,
      (ofModels o [m] need.labels true).toOption.all
        (fun offer => decide (offer.IsExact ∧ KeepsBound o need offer)) = true) <| by
    constructor
    · rintro ⟨hneed, hall⟩
      have htest : ∀ m ∈ pool.models, ∀ offer, ofModels o [m] need.labels true = .ok offer →
          offer.IsExact ∧ KeepsBound o need offer := by
        intro m hm offer hoffer
        have hm' := hall m hm
        rw [hoffer] at hm'
        exact of_decide_eq_true hm'
      exact ⟨hneed, fun m hm v hv => (htest m hm v hv).1, fun m hm v hv => (htest m hm v hv).2⟩
    · rintro ⟨hneed, hexact, hkeeps⟩
      refine ⟨hneed, fun m hm => ?_⟩
      cases hoffer : ofModels o [m] need.labels true with
      | error e => rfl
      | ok offer => exact decide_eq_true ⟨hexact m hm offer hoffer, hkeeps m hm offer hoffer⟩

/-- Labels that are not subclasses of each other keep their bound. -/
theorem keepsBound_of_separated (hnodup : labels.Nodup)
    (hlabels : ∀ k ∈ labels, ∀ l ∈ labels, o.isSubclassOf k l = false) (g h : Model → Double) :
    KeepsBound o (tabulate labels g) (tabulate labels h) := by
  have hembed : ∀ g : Model → Double,
      (tabulate labels g).embedClasses o = tabulate labels g := by
    intro g
    rw [embedClasses_tabulate hnodup]
    refine tabulate_congr fun l hl => ?_
    have hnone : (labels.filter fun k => k != l && o.isSubclassOf k l) = [] := by
      rw [List.filter_eq_nil_iff]
      intro k hk
      rw [hlabels k hk l hl, Bool.and_false]
      exact Bool.false_ne_true
    rw [embedded, hnone, List.foldl_nil]
  rw [KeepsBound, hembed g, hembed h]

end SupportVector

namespace Pool

open SupportVector

variable {o : Ontology} {c : MappingConfig} {clock : Clock} {pool limits own p q : Pool}
  {fs : List Model} {f a l : Model}

/-! ### Least pools are within full bounds -/

/-- As many instances of a model as the largest ratio says supply enough of each label that the
model offers. -/
theorem need_le_supply (hl : l ∈ ownLabels o fs) (hoffer : unitsFor o [a] true l ≠ 0)
    (hneed' : unitsFor o fs false l < 2 ^ 53) (hoffer' : unitsFor o [a] true l < 2 ^ 53)
    (hle : ratioBound (tabulate (ownLabels o fs) fun l => ratio (need o fs l) (offer o a l)) ≤
      (p.count a).toNat) (hlimit : (p.count a).toNat < countLimit) :
    (need o fs l).amount ≤ (supply o l p.normalized.entries).amount := by
  by_cases hneed : unitsFor o fs false l = 0
  · rw [amount_need_eq_zero_iff.2 hneed]
    exact Nat.zero_le _
  · obtain ⟨hpos, hmet⟩ := need_le_of_ratioBound hl hneed hoffer hneed' hoffer' hle hlimit
    have hmem : (a, p.count a) ∈ p.normalized.entries := by
      rw [(isNormal_normalized p).mem_entries_iff, count_normalized]
      refine ⟨fun hzero => ?_, rfl⟩
      rw [hzero, UInt32.toNat_zero] at hpos
      exact Nat.lt_irrefl 0 hpos
    have hterm := term_le_supply (o := o) (l := l) (isNormal_normalized p) hmem
    exact hmet.trans hterm

/-- With as many instances as the largest ratio says, one more is spare. -/
theorem serves_withoutOne (hserves : Serves o [f] p)
    (hneed : ∀ l ∈ ownLabels o [f], unitsFor o [f] false l < 2 ^ 53)
    (hoffer : ∀ l ∈ ownLabels o [f], unitsFor o [a] true l < 2 ^ 53)
    (hlt : ratioBound (tabulate (ownLabels o [f]) fun l =>
      ratio (need o [f] l) (offer o a l)) < (p.count a).toNat) :
    Serves o [f] (p.withoutOne a) := by
  have hcount : ((p.withoutOne a).count a).toNat = (p.count a).toNat - 1 :=
    count_withoutOne_self p a
  have hlimit : ((p.withoutOne a).count a).toNat < countLimit := by
    have := (p.count a).toNat_lt
    rw [hcount, countLimit]
    omega
  intro l hl
  by_cases hzero : unitsFor o [a] true l = 0
  · refine (hserves l hl).trans (supply_le_of_offered fun b hb => ?_)
    have hne : b ≠ a := by
      rintro rfl
      exact hb hzero
    rw [count_withoutOne_of_ne hne]
    exact UInt32.le_refl _
  · exact need_le_supply hl hzero (hneed l hl) (hoffer l hl) (hcount ▸ Nat.le_sub_one_of_lt hlt)
      hlimit

theorem IsLeast.isSubset_of_hasFullBounds (h : IsLeast o [f] p) (hle : p.isSubset pool = true)
    (hpool : pool.isEmpty = false) (hneed : ¬ NeedsNothing o [f])
    (hfull : HasFullBounds o pool (tabulate (ownLabels o [f]) (SupportVector.need o [f])))
    (hown : (⟨f, []⟩ : Resource).saturationBound o pool = .ok own) :
    p.isSubset own = true := by
  rw [isSubset_iff]
  intro a
  by_contra hlt
  rw [UInt32.not_le, UInt32.lt_iff_toNat_lt] at hlt
  have ha : p.count a ≠ 0 := by
    intro hzero
    rw [hzero, UInt32.toNat_zero] at hlt
    exact Nat.not_lt_zero _ hlt
  have hmodel : a ∈ pool.models :=
    mem_models_of_count_ne_zero fun hzero => ha (count_eq_zero_of_isSubset hle hzero)
  have hofModels : ofModels o [a] (tabulate (ownLabels o [f]) (SupportVector.need o [f])).labels
      true = .ok (tabulate (ownLabels o [f]) (offer o a)) := by
    rw [labels_tabulate, ofModels_own]
  have hkeeps := hfull.keepsBound a hmodel _ hofModels
  rw [KeepsBound, ratios_need_offer, ratios_embedClasses] at hkeeps
  have hcount := toNat_saturationOf hneed (saturationOf_of_mem hpool hown hmodel)
  refine h.not_serves a ha (serves_withoutOne h.serves (fun l hl => ?_) (fun l hl => ?_) ?_)
  · exact hfull.need_isExact.lt hl
  · exact (hfull.offer_isExact a hmodel _ hofModels).lt hl
  · rw [hcount] at hlt
    exact Nat.lt_of_le_of_lt hkeeps hlt

/-! ### What both searches find -/

/-- A pool of nothing does not meet a need. -/
theorem isEmpty_of_serves (hneed : ¬ NeedsNothing o fs) (h : Serves o fs p) :
    p.isEmpty = false := by
  cases hp : p.isEmpty with
  | false => rfl
  | true =>
    refine absurd (fun l hl => ?_) hneed
    have hentries : p.normalized.entries = [] :=
      (isNormal_normalized p).entries_eq_nil fun m => by
        rw [count_normalized, count_of_isEmpty hp]
    have hzero : (supply o l []).amount = 0 := Double.amount_zero
    have hle := h l hl
    rw [hentries, hzero] at hle
    exact amount_need_eq_zero_iff.1 (Nat.le_zero.1 hle)

/-- A least pool within the bounds is found. -/
theorem isFoundMinimal_of_isLeast (h : IsLeast o [f] p) (hp : p.IsNormal)
    (hsome : p.isEmpty = false) (hcheck : c.checkWiring = false)
    (hlimit : c.combinationLimit = none)
    (hown : (⟨f, []⟩ : Resource).saturationBound o pool = .ok own)
    (hle : p.isSubset (pool.min limits) = true) (hle' : p.isSubset own = true) :
    IsFoundMinimal o c clock pool (pool.min limits) p f where
  tried := ⟨own, hown, (MappingConfig.mem_combinations_iff hlimit).2
    ⟨hp, isSubset_min_iff.2 ⟨hle, hle'⟩, hsome⟩⟩
  isMinimal := isMinimal_of_isLeast hp h
  isWirable := fun hwire => absurd (hcheck.symm.trans hwire) Bool.false_ne_true

/-- Nothing is minimal for a functionality that needs nothing. -/
theorem not_isFoundMinimal_of_needsNothing (hneed : NeedsNothing o [f]) (bound : Pool) :
    ¬ IsFoundMinimal o c clock pool bound p f := by
  rintro ⟨⟨own, -, hp⟩, hminimal, -⟩
  obtain ⟨hnormal, -, hsome⟩ := MappingConfig.of_mem_combinations hp
  rw [isMinimal_eq_true_iff, hnormal.normalized_eq] at hminimal
  obtain ⟨m, hm⟩ := hnormal.exists_count_ne_zero hsome
  have hmem := mem_entries_of_count_ne_zero hm
  rw [if_pos ⟨_, hmem, serves_of_needsNothing hneed _⟩] at hminimal
  exact hminimal.2.2 ⟨m, mem_models_of_count_ne_zero hm, serves_of_needsNothing hneed _⟩

/-- A pool that contains one that the bounded search finds is found without bounds. For a
functionality that needs nothing every pool is found without bounds and none with them; for others,
if the bounds are full, the pools that are found without bounds are just those that contain one that
is found with them. -/
theorem mem_poolsOf_iff_exists_subset (clock : Clock) (hpool : pool.isEmpty = false) (hf : f ∈ fs)
    (hcheck : c.checkWiring = false) (hlimit : c.combinationLimit = none)
    (htime : c.timeLimit = none) : ∃ need bounded full, requirement o [f] = .ok need ∧
      functionalityMapping o c clock pool fs true = .ok bounded ∧
      functionalityMapping o c clock pool fs false = .ok full ∧
      ∀ p : Pool, p.IsNormal → p.isEmpty = false → p.isSubset pool = true →
        ((∃ q ∈ bounded.poolsOf f, q.isSubset p = true) → p ∈ full.poolsOf f) ∧
        (need.isNull = true → p ∈ full.poolsOf f ∧ ∀ q, q ∉ bounded.poolsOf f) ∧
        (need.isNull = false → HasFullBounds o pool need →
          (p ∈ full.poolsOf f ↔ ∃ q ∈ bounded.poolsOf f, q.isSubset p = true)) := by
  obtain ⟨limits, hlimits, hbelow⟩ := saturationBound_all hpool o fs
  obtain ⟨own, hown, -⟩ := saturationBound_plain hpool o f
  have hbounded : Maps _ _ c (minimalMapping o c clock pool fs) :=
    minimalMapping_spec hpool hlimits
  have hfull : Maps _ _ c (fullMapping o c clock pool fs) := fullMapping_spec
  obtain ⟨bounded, hb⟩ := hbounded.succeeds htime
  obtain ⟨full, hu⟩ := hfull.succeeds htime
  have hfs := List.ne_nil_of_mem hf
  refine ⟨_, bounded, full, requirement_eq o [f], (functionalityMapping_eq hpool hfs true).trans hb,
    (functionalityMapping_eq hpool hfs false).trans hu, fun p hp hsome hle => ?_⟩
  have hmem : p ∈ full.poolsOf f ↔ Serves o [f] p := by
    rw [hfull.mem_iff full hu, MappingConfig.mem_combinations_iff hlimit]
    exact ⟨fun h => h.2.2, fun h => ⟨hf, ⟨hp, hle, hsome⟩, h⟩⟩
  have hcontains : (∃ q ∈ bounded.poolsOf f, q.isSubset p = true) → p ∈ full.poolsOf f := by
    rintro ⟨q, hq, hqp⟩
    have hminimal := ((hbounded.mem_iff bounded hb q f).1 hq).2.isMinimal
    exact hmem.2 ((isMinimal_eq_true_iff.1 hminimal).1.mono hqp)
  refine ⟨hcontains, fun hnull => ?_, fun hneed hbounds => ⟨fun h => ?_, hcontains⟩⟩
  · have hnothing := isNull_tabulate_need.1 hnull
    refine ⟨hmem.2 (serves_of_needsNothing hnothing p), fun q hq => ?_⟩
    exact not_isFoundMinimal_of_needsNothing hnothing _ ((hbounded.mem_iff bounded hb q f).1 hq).2
  · have hneed' : ¬ NeedsNothing o [f] := fun hnothing =>
      Bool.false_ne_true (hneed.symm.trans (isNull_tabulate_need.2 hnothing))
    obtain ⟨q, hq, hqp, hleast⟩ := exists_isLeast_subset hp (hmem.1 h)
    have hqpool := isSubset_trans hqp hle
    have hqown := hleast.isSubset_of_hasFullBounds hqpool hpool hneed' hbounds hown
    have hqlimits := isSubset_trans hqown (hbelow f hf own hown)
    refine ⟨q, (hbounded.mem_iff bounded hb q f).2 ⟨hf, ?_⟩, hqp⟩
    exact isFoundMinimal_of_isLeast hleast hq (isEmpty_of_serves hneed' hleast.serves) hcheck hlimit
      hown (isSubset_min_iff.2 ⟨hqpool, hqlimits⟩) hqown

/-- Pools may be of any kind, and the search takes all the time it needs. -/
def unwired : MappingConfig := { checkWiring := false }

theorem mem_poolsOf_iff_exists_subset_threeRovers : ∃ bounded full,
    functionalityMapping roversWithArms.build.ontology unwired stopped (rovers 3) [⟨"Dig"⟩] true =
      .ok bounded ∧
    functionalityMapping roversWithArms.build.ontology unwired stopped (rovers 3) [⟨"Dig"⟩] false =
      .ok full ∧
    (rovers 3 ∈ full.poolsOf ⟨"Dig"⟩ ↔
      ∃ q ∈ bounded.poolsOf ⟨"Dig"⟩, q.isSubset (rovers 3) = true) := by
  obtain ⟨need, hneed, htest⟩ : ∃ need, requirement roversWithArms.build.ontology [⟨"Dig"⟩] =
      .ok need ∧ decide (need.isNull = false ∧ HasFullBounds roversWithArms.build.ontology
        (rovers 3) need) = true := exists_ok_of_any (by decide +kernel)
  have hpool : (rovers 3).isEmpty = false := by decide +kernel
  obtain ⟨need', bounded, full, hneed', hbounded, hfull, hagree⟩ :=
    mem_poolsOf_iff_exists_subset (o := roversWithArms.build.ontology) (c := unwired) stopped hpool
      (List.mem_singleton_self ⟨"Dig"⟩) rfl rfl rfl
  obtain rfl := Except.ok.inj (hneed.symm.trans hneed')
  obtain ⟨hsome, hbounds⟩ := of_decide_eq_true htest
  have hnormal : (rovers 3).IsNormal := isNormal_ofPairs_singleton (by decide)
  exact ⟨bounded, full, hbounded, hfull,
    (hagree _ hnormal hpool (isSubset_refl _)).2.2 hsome hbounds⟩

/-! ### Where the searches differ -/

/-- A pool within another that is found without bounds, while no part of it is found with them. -/
structure IsMissed (d : CatalogDraft) (pool : Pool) (f : Model) (p : Pool) : Prop where
  isNormal : p.IsNormal
  isEmpty : p.isEmpty = false
  isSubset : p.isSubset pool = true
  differ : ∃ bounded full,
    functionalityMapping d.build.ontology unwired stopped pool [f] true = .ok bounded ∧
    functionalityMapping d.build.ontology unwired stopped pool [f] false = .ok full ∧
    p ∈ full.poolsOf f ∧ ∀ q ∈ bounded.poolsOf f, q.isSubset p = false

/-- Waiting takes at most one arm, and rovers have an arm each. -/
def waitingRovers : CatalogDraft :=
  (({} : CatalogDraft).has ⟨"Wait"⟩ ⟨"Arm"⟩ 0 1).has ⟨"Rover"⟩ ⟨"Arm"⟩ 0 1

/-- Lifting takes five tools and an arm besides, and arms, of which rovers have one each, are
tools. -/
def liftingRovers : CatalogDraft :=
  (((({} : CatalogDraft).subclass ⟨"Arm"⟩ ⟨"Tool"⟩).has ⟨"Lift"⟩ ⟨"Tool"⟩ 5 5).has
    ⟨"Lift"⟩ ⟨"Arm"⟩ 1 1).has ⟨"Rover"⟩ ⟨"Arm"⟩ 0 1

theorem isMissed_rovers {d : CatalogDraft} {m n : UInt32} (hn : n ≠ 0)
    (hsome : (rovers n).isEmpty = false) (hle : (rovers n).isSubset (rovers m) = true)
    (hbounded : (functionalityMapping d.build.ontology unwired stopped (rovers m) [f]
      true).toOption.any (fun bounded =>
        decide (∀ q ∈ (bounded.poolsOf f).toList, q.isSubset (rovers n) = false)) = true)
    (hfull : (functionalityMapping d.build.ontology unwired stopped (rovers m) [f]
      false).toOption.any (fun full => decide (rovers n ∈ full.poolsOf f)) = true) :
    IsMissed d (rovers m) f (rovers n) := by
  obtain ⟨bounded, hb, hnone⟩ := exists_ok_of_any hbounded
  obtain ⟨full, hu, hmem⟩ := exists_ok_of_any hfull
  exact ⟨isNormal_ofPairs_singleton hn, hsome, hle, bounded, full, hb, hu,
    of_decide_eq_true hmem, of_decide_eq_true hnone⟩

/-- Nothing is minimal for what needs nothing, and embedding the arms among the tools once more
lowers the bound from six rovers to four. -/
theorem isMissed_waiting_and_lifting : IsMissed waitingRovers (rovers 2) ⟨"Wait"⟩ (rovers 1) ∧
    IsMissed liftingRovers (rovers 6) ⟨"Lift"⟩ (rovers 6) := by
  constructor
  · exact isMissed_rovers (by decide) (by decide +kernel) (by decide +kernel) (by decide +kernel)
      (by decide +kernel)
  · exact isMissed_rovers (by decide) (by decide +kernel) (by decide +kernel) (by decide +kernel)
      (by decide +kernel)

end Pool
end Muster
