import Muster.Proofs.Cardinality
import Muster.Proofs.Functionality.Minimal

/-!
Several functionalities together. Joined intervals grow with every model that is joined to them, so
a selection of functionalities needs no more than all of them together, and a pool that serves all
of them serves the selection. Models without restrictions are never joined to models with some,
though: beside a restricted functionality, an unrestricted one needs nothing. The order of models
does not matter, as the laws of joining let it change.

Main statements: `below_foldl_join`, `unitsFor_le_of_sublist`, `supportType_filter_isRestricted`,
`supportType_of_sublist`, `ofModels_perm`, `independent_of_order`.
-/

namespace Muster

open Std

/-! ### Joined intervals -/

namespace BoundMap

variable {a b c : BoundMap} {q : Model}

/-- Whether each interval of `a` has its ends below those of the interval of `b` for the same
class. -/
def Below (a b : BoundMap) : Prop := ∀ q x, a.get? q = some x →
  ∃ y, b.get? q = some y ∧ x.min ≤ y.min ∧ x.max ≤ y.max

theorem Below.refl (a : BoundMap) : a.Below a := fun _ x hx =>
  ⟨x, hx, UInt32.le_refl _, UInt32.le_refl _⟩

theorem Below.trans (hab : a.Below b) (hbc : b.Below c) : a.Below c := by
  intro q x hx
  obtain ⟨y, hy, hmin, hmax⟩ := hab q x hx
  obtain ⟨z, hz, hmin', hmax'⟩ := hbc q y hy
  exact ⟨z, hz, UInt32.le_trans hmin hmin', UInt32.le_trans hmax hmax'⟩

theorem Below.mem_keys (h : a.Below b) (hq : q ∈ a.keys) : q ∈ b.keys := by
  obtain ⟨x, hx⟩ := Option.isSome_iff_exists.1 (OrderedMap.mem_keys.1 hq)
  obtain ⟨y, hy, -⟩ := h q x hx
  exact OrderedMap.mem_keys.2 (Option.isSome_iff_exists.2 ⟨y, hy⟩)

/-- What is joined to intervals does not lower them. -/
theorem below_join (a c : BoundMap) : a.Below (a.join .max c) := by
  intro q x hx
  rw [get?_join, hx]
  cases c.get? q with
  | none => exact ⟨x, rfl, UInt32.le_refl _, UInt32.le_refl _⟩
  | some z => exact ⟨_, rfl, JoinOperation.le_apply_left .., JoinOperation.le_apply_left ..⟩

theorem Below.join (h : a.Below b) (c : BoundMap) : (a.join .max c).Below (b.join .max c) := by
  intro q x hx
  rw [get?_join, Option.merge_eq_some_iff] at hx
  rcases hx with ⟨hx, -⟩ | ⟨-, hx⟩ | ⟨y, z, hy, hz, rfl⟩
  · exact h.trans (below_join b c) q x hx
  · rw [join_comm]
    exact below_join c b q x hx
  · obtain ⟨w, hw, hmin, hmax⟩ := h q y hy
    rw [get?_join, hw, hz]
    exact ⟨_, rfl, JoinOperation.apply_mono _ hmin (UInt32.le_refl _),
      JoinOperation.apply_mono _ hmax (UInt32.le_refl _)⟩

/-- Fewer restrictions joined to lower intervals leave lower intervals. -/
theorem below_foldl_join {rss' rss : List (List CardinalityRestriction)} (hsub : rss'.Sublist rss)
    (h : a.Below b) :
    (rss'.foldl (fun b rs => b.join .max (.ofRestrictions rs)) a).Below
      (rss.foldl (fun b rs => b.join .max (.ofRestrictions rs)) b) := by
  induction hsub generalizing a b with
  | slnil => exact h
  | cons rs _ ih => exact ih (h.trans (below_join b _))
  | cons_cons rs _ ih => exact ih (h.join _)

/-- Lower intervals have fewer units, of whichever classes. -/
theorem Below.sumOf_le (h : a.Below b) (keep : Model → Bool) (offered : Bool) :
    sumOf ((a.entries.filter fun e => keep e.1).map fun e => (e.2.pick offered).toNat) ≤
      sumOf ((b.entries.filter fun e => keep e.1).map fun e => (e.2.pick offered).toNat) := by
  have hascending : ∀ b : BoundMap, ((b.entries.filter fun e => keep e.1).map
      fun e => (e.1, e.2.pick offered)).Pairwise fun e f => compare e.1 f.1 = .lt := fun b =>
    (b.ascending.sublist List.filter_sublist).map _ fun _ _ hlt => hlt
  have hle := Pool.sum_le_of_sublistForall₂
    (Pool.sublistForall₂_of_ascending (hascending a) (hascending b) fun e he => ?_)
  · simpa [Function.comp_def] using hle
  obtain ⟨⟨q, x⟩, hx, rfl⟩ := List.mem_map.1 he
  obtain ⟨hmem, hkeep⟩ := List.mem_filter.1 hx
  obtain ⟨y, hy, hmin, hmax⟩ := h q x (OrderedMap.get?_eq_some_iff.2 hmem)
  refine ⟨_, List.mem_map_of_mem (List.mem_filter.2 ⟨OrderedMap.get?_eq_some_iff.1 hy, hkeep⟩),
    rfl, ?_⟩
  cases offered
  · exact hmin
  · exact hmax

end BoundMap

/-! ### Needs of several models -/

/-- Whether a model states how many resources it owns or needs. -/
def Ontology.isRestricted (o : Ontology) (m : Model) : Bool :=
  !(o.restrictions m Vocabulary.has).isEmpty

namespace SupportVector

variable {o : Ontology} {fs fs' : List Model}

theorem joinedBounds_eq (o : Ontology) (fs : List Model) :
    joinedBounds o fs = if fs.filter o.isRestricted = [] then none
      else some (((fs.filter o.isRestricted).map fun f => o.restrictions f Vocabulary.has).foldl
        (fun b rs => b.join .max (.ofRestrictions rs)) .empty) := by
  rw [joinedBounds, List.filter_map]
  simp only [List.isEmpty_iff, List.map_eq_nil_iff]
  rfl

theorem filter_isRestricted_eq_nil_iff :
    fs.filter o.isRestricted = [] ↔ ¬ ∃ f ∈ fs, o.isRestricted f := by
  rw [List.filter_eq_nil_iff, not_exists]
  simp only [not_and]

theorem joinedBounds_eq_none (h : ¬ ∃ f ∈ fs, o.isRestricted f) : joinedBounds o fs = none := by
  rw [joinedBounds_eq, if_pos (filter_isRestricted_eq_nil_iff.2 h)]

theorem joinedBounds_eq_some (h : ∃ f ∈ fs, o.isRestricted f) : joinedBounds o fs =
    some (((fs.filter o.isRestricted).map fun f => o.restrictions f Vocabulary.has).foldl
      (fun b rs => b.join .max (.ofRestrictions rs)) .empty) := by
  rw [joinedBounds_eq, if_neg (mt filter_isRestricted_eq_nil_iff.1 (not_not_intro h))]

/-- A selection of models has only labels of all of them, and no more units of any, unless only all
of them have a restricted one among them. -/
theorem unitsFor_le_of_sublist (offered : Bool) (hsub : fs'.Sublist fs)
    (hkinds : (∃ f ∈ fs, o.isRestricted f) → ∃ f ∈ fs', o.isRestricted f) :
    (∀ l ∈ ownLabels o fs', l ∈ ownLabels o fs) ∧
      ∀ l, unitsFor o fs' offered l ≤ unitsFor o fs offered l := by
  by_cases hfs : ∃ f ∈ fs, o.isRestricted f
  · have hbelow := BoundMap.below_foldl_join
      ((hsub.filter o.isRestricted).map fun f => o.restrictions f Vocabulary.has)
      (BoundMap.Below.refl .empty)
    simp only [ownLabels, unitsFor, joinedBounds_eq_some hfs, joinedBounds_eq_some (hkinds hfs)]
    exact ⟨fun l hl => hbelow.mem_keys hl,
      fun l => hbelow.sumOf_le (fun k => o.isSameOrSubclassOf k l) offered⟩
  · have hfs' : ¬ ∃ f ∈ fs', o.isRestricted f := by
      rintro ⟨f, hf, hrestricted⟩
      exact hfs ⟨f, hsub.subset hf, hrestricted⟩
    simp only [ownLabels, unitsFor, joinedBounds_eq_none hfs, joinedBounds_eq_none hfs']
    refine ⟨fun l hl => ?_, fun l => hsub.countP_le⟩
    exact OrderedSet.mem_ofList.2 (hsub.subset (OrderedSet.mem_ofList.1 hl))

end SupportVector

namespace Pool

open SupportVector

variable {o : Ontology} {fs fs' : List Model} {p : Pool}

theorem serves_nil (o : Ontology) (p : Pool) : Serves o [] p := fun _ hl =>
  absurd (OrderedSet.mem_ofList.1 hl) List.not_mem_nil

/-- A pool that serves functionalities serves a selection of them, unless what is restricted among
them is left out. -/
theorem Serves.of_sublist (h : Serves o fs p) (hsub : fs'.Sublist fs)
    (hkinds : (∃ f ∈ fs, o.isRestricted f) → fs' = [] ∨ ∃ f ∈ fs', o.isRestricted f) :
    Serves o fs' p := by
  by_cases hnil : fs' = []
  · rw [hnil]
    exact serves_nil o p
  obtain ⟨hlabels, hunits⟩ := unitsFor_le_of_sublist false hsub
    fun hfs => (hkinds hfs).resolve_left hnil
  exact fun l hl => (Double.amount_ofNat_mono (hunits l)).trans (h l (hlabels l hl))

/-- Beside a restricted functionality, unrestricted ones do not count. -/
theorem supportType_filter_isRestricted (h : ∃ f ∈ fs, o.isRestricted f) (p : Pool) :
    supportType o (fs.filter o.isRestricted) p = supportType o fs p := by
  have hbounds : joinedBounds o (fs.filter o.isRestricted) = joinedBounds o fs := by
    rw [joinedBounds_eq, joinedBounds_eq, List.filter_filter]
    simp only [Bool.and_self]
  have hneed : need o (fs.filter o.isRestricted) = need o fs := funext fun l => by
    rw [need, need, unitsFor, unitsFor, hbounds, joinedBounds_eq_some h]
  have hlabels : ownLabels o (fs.filter o.isRestricted) = ownLabels o fs := by
    rw [ownLabels, ownLabels, hbounds, joinedBounds_eq_some h]
  rw [supportType, supportType, requirement_eq, requirement_eq, hneed, hlabels]

/-- A pool that fully serves functionalities fully serves every selection of them, and so each of
them, as long as functionalities with and without restrictions are not taken together. Where they
are, those without do not count, so this holds of selections that keep one with restrictions. -/
theorem supportType_of_sublist (h : supportType o fs p = .ok .fullSupport) :
    (∀ fs', fs'.Sublist fs →
      ((∃ f ∈ fs, o.isRestricted f) → fs' = [] ∨ ∃ f ∈ fs', o.isRestricted f) →
      supportType o fs' p = .ok .fullSupport) ∧
    (∀ f ∈ fs, ((∃ g ∈ fs, o.isRestricted g) → o.isRestricted f) →
      supportType o [f] p = .ok .fullSupport) ∧
    ((∃ f ∈ fs, o.isRestricted f) →
      ∀ q, supportType o (fs.filter o.isRestricted) q = supportType o fs q) := by
  have hserves : Serves o fs p := supportType_eq_full_iff.1 h
  refine ⟨fun fs' hsub hkinds => ?_, fun f hf hkind => ?_, supportType_filter_isRestricted⟩
  · exact supportType_eq_full_iff.2 (hserves.of_sublist hsub hkinds)
  · refine supportType_eq_full_iff.2 (hserves.of_sublist (List.singleton_sublist.2 hf) ?_)
    exact fun hrestricted => .inr ⟨f, List.mem_singleton_self f, hkind hrestricted⟩

/-- Digging takes an arm and lifting two, of which rovers have one each; waving is restricted in
nothing, and no rover can wave. -/
def wavingRovers : CatalogDraft :=
  ((({} : CatalogDraft).has ⟨"Dig"⟩ ⟨"Arm"⟩ 1 1).has ⟨"Lift"⟩ ⟨"Arm"⟩ 2 2).has ⟨"Rover"⟩ ⟨"Arm"⟩ 0 1

theorem supportType_of_sublist_waving :
    supportType wavingRovers.build.ontology [⟨"Dig"⟩, ⟨"Lift"⟩, ⟨"Wave"⟩] (rovers 2) =
      .ok .fullSupport ∧
    supportType wavingRovers.build.ontology [⟨"Dig"⟩] (rovers 2) = .ok .fullSupport := by
  have hserves : Serves wavingRovers.build.ontology [⟨"Dig"⟩, ⟨"Lift"⟩, ⟨"Wave"⟩] (rovers 2) := by
    decide +kernel
  have hfull := supportType_eq_full_iff.2 hserves
  have hdig : wavingRovers.build.ontology.isRestricted ⟨"Dig"⟩ = true := by decide +kernel
  exact ⟨hfull, (supportType_of_sublist hfull).2.1 _ List.mem_cons_self fun _ => hdig⟩

/-- A rover digs and waves fully together, but it does not wave. -/
theorem supportType_diggingAndWaving :
    [(⟨"Wave"⟩ : Model)].Sublist [⟨"Dig"⟩, ⟨"Wave"⟩] ∧
    supportType wavingRovers.build.ontology [⟨"Dig"⟩, ⟨"Wave"⟩] (rovers 1) = .ok .fullSupport ∧
    supportType wavingRovers.build.ontology [⟨"Wave"⟩] (rovers 1) ≠ .ok .fullSupport := by
  have hserves : Serves wavingRovers.build.ontology [⟨"Dig"⟩, ⟨"Wave"⟩] (rovers 1) := by
    decide +kernel
  have hnot : ¬ Serves wavingRovers.build.ontology [⟨"Wave"⟩] (rovers 1) := by decide +kernel
  exact ⟨List.sublist_cons_self .., supportType_eq_full_iff.2 hserves,
    mt supportType_eq_full_iff.1 hnot⟩

end Pool

/-! ### The order of models -/

namespace SupportVector

variable {o : Ontology} {models models' : List Model}

theorem joinedBounds_perm (h : models.Perm models') :
    joinedBounds o models = joinedBounds o models' := by
  by_cases hrestricted : ∃ f ∈ models, o.isRestricted f
  · have hrestricted' : ∃ f ∈ models', o.isRestricted f := by
      simpa only [h.mem_iff] using hrestricted
    rw [joinedBounds_eq_some hrestricted, joinedBounds_eq_some hrestricted']
    refine congrArg some (((h.filter _).map _).foldl_eq' (fun rs _ rs' _ bounds => ?_) _)
    rw [BoundMap.join_assoc, BoundMap.join_comm .max (.ofRestrictions rs), BoundMap.join_assoc]
  · have hrestricted' : ¬ ∃ f ∈ models', o.isRestricted f := by
      simpa only [h.mem_iff] using hrestricted
    rw [joinedBounds_eq_none hrestricted, joinedBounds_eq_none hrestricted']

/-- The order of models does not matter for what they need or offer. -/
theorem ofModels_perm (h : models.Perm models') (filter : List Model) (offered : Bool) :
    ofModels o models filter offered = ofModels o models' filter offered := by
  rw [ofModels, ofModels, joinedBounds_perm h]
  cases hbounds : joinedBounds o models' with
  | none =>
    have hlabels : OrderedSet.ofList models = .ofList models' := OrderedSet.ext_mem fun m => by
      rw [OrderedSet.mem_ofList, OrderedSet.mem_ofList, h.mem_iff]
    simp only [hlabels, h.countP_eq]
  | some bounds => simp only [joinedBounds_ne_empty hbounds, Bool.false_eq_true, if_false]

end SupportVector

namespace BoundMap

/-- Restrictions may be permuted and repeated. They leave an interval for each class that they
mention, the tightest one between the limits that they state. Intervals may be joined in any order
and grouping, maxima also repeatedly; an interval that is missing changes nothing, and if none ends
before it starts, none does that is joined. So the models may be permuted of which it is asked what
they need or offer. -/
theorem independent_of_order :
    (∀ rs rs' : List CardinalityRestriction, (∀ r, r ∈ rs ↔ r ∈ rs') →
      BoundMap.ofRestrictions rs = .ofRestrictions rs') ∧
    (∀ rs q, (∃ r ∈ rs, r.qualification = q) → ∃ x, (BoundMap.ofRestrictions rs).get? q = some x ∧
      x.IsTightest (lowerLimits rs q) (upperLimits rs q) ∧ x.min ≤ x.max) ∧
    (∀ rs q, (¬ ∃ r ∈ rs, r.qualification = q) → (BoundMap.ofRestrictions rs).get? q = none) ∧
    (∀ op a b, BoundMap.join op a b = BoundMap.join op b a) ∧
    (∀ op a b c, (BoundMap.join op a b).join op c = BoundMap.join op a (BoundMap.join op b c)) ∧
    (∀ op a, BoundMap.join op .empty a = a ∧ BoundMap.join op a .empty = a) ∧
    (∀ a, BoundMap.join .max a a = a) ∧
    (∀ op a b, IsProper a → IsProper b → IsProper (BoundMap.join op a b)) ∧
    ∀ (o : Ontology) (models models' filter : List Model) (offered : Bool), models.Perm models' →
      SupportVector.ofModels o models filter offered =
        SupportVector.ofModels o models' filter offered := by
  refine ⟨fun _ _ h => ofRestrictions_congr h, fun rs q hq => ?_, fun rs q hq => ?_, join_comm,
    join_assoc, fun op a => ⟨empty_join op a, join_empty op a⟩, join_max_self,
    fun op a b ha hb => ha.join hb op, fun o models models' filter offered h => ?_⟩
  · have hx := (get?_ofRestrictions rs q).trans (if_pos hq)
    have htightest := (get?_ofRestrictions_iff.1 hx).2
    exact ⟨_, hx, htightest, htightest.min_le_max⟩
  · rw [get?_ofRestrictions, if_neg hq]
  · exact SupportVector.ofModels_perm h filter offered

/-- One arm at least, three at most. -/
def armLimits : List CardinalityRestriction :=
  [⟨Vocabulary.has, ⟨"Arm"⟩, 1, .min⟩, ⟨Vocabulary.has, ⟨"Arm"⟩, 3, .max⟩]

theorem independent_of_order_arms :
    BoundMap.ofRestrictions armLimits = .ofRestrictions (armLimits ++ armLimits.reverse) ∧
    (BoundMap.ofRestrictions armLimits).get? ⟨"Arm"⟩ = some ⟨1, 3⟩ ∧
    CardinalityBound.IsTightest (lowerLimits armLimits ⟨"Arm"⟩) (upperLimits armLimits ⟨"Arm"⟩)
      ⟨1, 3⟩ ∧
    (BoundMap.ofRestrictions armLimits).get? ⟨"Leg"⟩ = none ∧
    IsProper ((BoundMap.ofRestrictions armLimits).join .sum (.ofRestrictions armLimits)) ∧
    SupportVector.ofModels Pool.wavingRovers.build.ontology [⟨"Dig"⟩, ⟨"Lift"⟩, ⟨"Wave"⟩] [] false =
      SupportVector.ofModels Pool.wavingRovers.build.ontology [⟨"Wave"⟩, ⟨"Lift"⟩, ⟨"Dig"⟩] []
        false := by
  obtain ⟨hcongr, hsome, hnone, -, -, -, -, hproper, hperm⟩ := independent_of_order
  have harm : (BoundMap.ofRestrictions armLimits).get? ⟨"Arm"⟩ = some ⟨1, 3⟩ := by decide +kernel
  obtain ⟨x, hx, htightest, -⟩ := hsome armLimits ⟨"Arm"⟩ (by decide)
  obtain rfl := Option.some.inj (hx.symm.trans harm)
  have hlimits : IsProper (.ofRestrictions armLimits) := isProper_ofRestrictions armLimits
  refine ⟨hcongr _ _ fun r => ?_, harm, htightest, hnone _ _ (by decide),
    hproper _ _ _ hlimits hlimits, hperm _ _ _ _ _ (List.reverse_perm _).symm⟩
  rw [List.mem_append, List.mem_reverse, or_self]

end BoundMap
end Muster
