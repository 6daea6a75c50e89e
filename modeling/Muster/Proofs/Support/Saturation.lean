import Muster.Proofs.Support.Pool
import Muster.Support.Saturation

/-!
Saturation bounds. Embedding the classes adds to each label the units of the labels below it, so a
label that had none gets none in a transitive taxonomy. A provider that offers nothing of what is
needed therefore has no positive ratio, and its bound is zero. Without embedding, as many instances
as the largest ratio says meet every need that one instance meets in part, as long as the numbers
are small enough to be exact.

Main statements: `embedClasses_tabulate`, `saturationOf_eq_zero`, `need_le_of_ratioBound`.
-/

namespace Muster

open Double (amount IsAmount unitsPerOne)

namespace SupportVector

variable {o : Ontology} {labels : List Model} {g h : Model → Double} {f l k m : Model}

/-! ### Embedded classes -/

/-- The units of a label and of the labels strictly below it. -/
def embedded (o : Ontology) (labels : List Model) (g : Model → Double) (l : Model) : Double :=
  (labels.filter fun k => k != l && o.isSubclassOf k l).foldl (fun sum k => sum + g k) (g l)

theorem zipIdx_position_iff {α β : Type} {es : List (α × β)} (hnodup : (es.map Prod.fst).Nodup)
    {e e' : α × β} {i j : Nat} (he : (e, i) ∈ es.zipIdx) (he' : (e', j) ∈ es.zipIdx) :
    i = j ↔ e.1 = e'.1 := by
  have hi := List.mk_mem_zipIdx_iff_getElem?.1 he
  have hj := List.mk_mem_zipIdx_iff_getElem?.1 he'
  constructor
  · rintro rfl
    rw [Option.some.inj (hi.symm.trans hj)]
  · intro heq
    have hlt : i < (es.map Prod.fst).length := by
      rw [List.length_map]
      exact (List.getElem?_eq_some_iff.1 hi).1
    refine (List.getElem?_inj hlt hnodup).1 ?_
    rw [List.getElem?_map, List.getElem?_map, hi, hj]
    exact congrArg some heq

/-- Positions only keep a label from being added to itself. -/
theorem embedClasses_eq {v : SupportVector} (hnodup : v.labels.Nodup) :
    v.embedClasses o = ⟨v.entries.map fun e => (e.1, v.entries.foldl (fun sum f =>
      if f.1 != e.1 && o.isSubclassOf f.1 e.1 then sum + f.2 else sum) e.2)⟩ := by
  have hstep : ∀ p ∈ v.entries.zipIdx, v.entries.zipIdx.foldl (fun sum q =>
      if p.2 != q.2 && o.isSubclassOf q.1.1 p.1.1 then sum + q.1.2 else sum) p.1.2 =
      v.entries.foldl (fun sum f =>
        if f.1 != p.1.1 && o.isSubclassOf f.1 p.1.1 then sum + f.2 else sum) p.1.2 := by
    intro p hp
    have hcond : ∀ q ∈ v.entries.zipIdx, (p.2 != q.2) = (q.1.1 != p.1.1) := by
      intro q hq
      rw [Bool.eq_iff_iff, bne_iff_ne, bne_iff_ne, ne_eq, zipIdx_position_iff hnodup hp hq, eq_comm]
    rw [List.foldl_ext _ _ _ fun sum q hq => by rw [hcond q hq]]
    conv_rhs => rw [← List.zipIdx_map_fst 0 v.entries, List.foldl_map]
  refine congrArg SupportVector.mk ?_
  conv_rhs => rw [← List.zipIdx_map_fst 0 v.entries, List.map_map]
  refine List.map_congr_left fun p hp => Prod.ext rfl ((hstep p hp).trans ?_)
  simp

theorem embedClasses_tabulate (hnodup : labels.Nodup) :
    (tabulate labels g).embedClasses o = tabulate labels (embedded o labels g) := by
  rw [embedClasses_eq (by rwa [labels_tabulate])]
  simp only [tabulate, List.map_map, List.foldl_map, Function.comp_def, embedded, List.foldl_filter]

section Embedded

variable (hg : ∀ k, IsAmount (g k))

include hg

theorem isAmount_embedded (l : Model) : IsAmount (embedded o labels g l) :=
  Double.isAmount_foldl (hg l) fun k _ => hg k

/-- Nothing is added to nothing if a class has at least the units of its subclasses. -/
theorem embedded_eq_zero (hmono : ∀ k, o.isSubclassOf k l = true → (g l).amount = 0 →
    (g k).amount = 0) (hzero : (g l).amount = 0) : (embedded o labels g l).amount = 0 := by
  rw [embedded, Double.amount_foldl_eq_zero_iff (hg l) fun k _ => hg k]
  refine ⟨hzero, fun k hk => ?_⟩
  have := (List.mem_filter.1 hk).2
  rw [Bool.and_eq_true] at this
  exact hmono k this.2 hzero

end Embedded

/-! ### Ratios -/

section Ratio

variable {x y : Double}

theorem ratios_tabulate :
    (tabulate labels g).ratios (tabulate labels h) =
      tabulate labels fun l => ratio (g l) ((tabulate labels h).get l) := by
  simp [tabulate, ratios, mapUnits]

theorem ratio_of_pos (hy : IsAmount y) (hpos : 0 < y.amount) : ratio x y = x / y := by
  have hsame : ¬ y.same 0 = true := by
    rw [hy.same_zero_iff]
    omega
  rw [ratio, if_neg hsame]

/-- A ratio of amounts that is finite is an amount, and nothing is in no proportion. -/
theorem isAmount_ratio (hx : IsAmount x) (hy : IsAmount y) (hfin : (ratio x y).isFinite = true) :
    IsAmount (ratio x y) ∧ ((x.amount = 0 ∨ y.amount = 0) → (ratio x y).amount = 0) := by
  have hnan : Double.nan.isFinite = false := by decide
  by_cases hpos : 0 < y.amount
  · rw [ratio_of_pos hy hpos] at hfin ⊢
    refine ⟨Double.isAmount_div_of_isFinite hx hy hpos hfin, ?_⟩
    rintro (hzero | hzero)
    · exact (Double.isAmount_div_of_eq_zero hx hy hzero hpos).2
    · omega
  · rw [ratio, if_pos (hy.same_zero_iff.2 (by omega))] at hfin ⊢
    split at hfin
    · rename_i hzero
      rw [if_pos hzero]
      exact ⟨Double.isAmount_zero, fun _ => Double.amount_zero⟩
    · rw [hnan] at hfin
      exact absurd hfin Bool.false_ne_true

end Ratio

/-! ### The bound of one model -/

/-- The largest of some ratios, rounded up. -/
def ratioBound (v : SupportVector) : Nat :=
  ((v.maxFinite?.getD 0).max 0).ceil.toNatUpTo countLimit

theorem ratioBound_le (v : SupportVector) : ratioBound v ≤ countLimit := Double.toNatUpTo_le _ _

section RatioBound

variable (hg : ∀ k, (g k).isFinite = true → IsAmount (g k))

include hg

theorem isLargest_maxFinite : Double.IsLargest ((labels.map g).filter Double.isFinite)
    (((tabulate labels g).maxFinite?.getD 0).max 0) := by
  have hentries : (tabulate labels g).maxFinite? =
      reduce? Double.max ((labels.map g).filter Double.isFinite) := by
    simp only [maxFinite?, tabulate, List.map_map, Function.comp_def]
  rw [hentries]
  refine (Double.isLargest_reduce fun x hx => ?_).max_zero
  obtain ⟨hmem, hfin⟩ := List.mem_filter.1 hx
  obtain ⟨k, -, rfl⟩ := List.mem_map.1 hmem
  exact ⟨hg k hfin, hfin⟩

theorem ratioBound_eq_zero (hzero : ∀ k ∈ labels, (g k).isFinite = true → (g k).amount = 0) :
    ratioBound (tabulate labels g) = 0 := by
  have hlargest : Double.IsLargest ((labels.map g).filter Double.isFinite) _ :=
    isLargest_maxFinite hg
  have hnone : (((tabulate labels g).maxFinite?.getD 0).max 0).amount = 0 := by
    rcases hlargest.mem with hnone | hmem
    · exact hnone
    · obtain ⟨hmem, hfin⟩ := List.mem_filter.1 hmem
      obtain ⟨k, hk, heq⟩ := List.mem_map.1 hmem
      rw [← heq] at hfin ⊢
      exact hzero k hk hfin
  rw [ratioBound, hlargest.isAmount.ext Double.isAmount_zero (hnone.trans Double.amount_zero.symm),
    Double.toNatUpTo_ceil_zero]

theorem le_ratioBound (hl : l ∈ labels) (hfin : (g l).isFinite = true) :
    (g l).amount ≤ ratioBound (tabulate labels g) * unitsPerOne ∨
      ratioBound (tabulate labels g) = countLimit := by
  have hlargest : Double.IsLargest ((labels.map g).filter Double.isFinite) _ :=
    isLargest_maxFinite hg
  have hle := hlargest.le _ (List.mem_filter.2 ⟨List.mem_map_of_mem hl, hfin⟩)
  refine (Double.le_toNatUpTo_ceil hlargest.isAmount hlargest.isFinite (by decide)).imp_left ?_
  exact hle.trans

end RatioBound

/-- Whether functionalities need nothing of any label. -/
def NeedsNothing (o : Ontology) (fs : List Model) : Prop :=
  ∀ l ∈ ownLabels o fs, unitsFor o fs false l = 0

theorem isNull_tabulate_need {fs : List Model} :
    (tabulate (ownLabels o fs) (need o fs)).isNull = true ↔ NeedsNothing o fs := by
  have hsame : ∀ l, (need o fs l).same 0 = true ↔ unitsFor o fs false l = 0 := fun l =>
    (isAmount_need o fs l).same_zero_iff.trans amount_need_eq_zero_iff
  rw [isNull, tabulate, List.all_eq_true, List.forall_mem_map]
  simp only [hsame, NeedsNothing]

/-- The ratio of the need of a model to what a provider offers, with the classes embedded. -/
def embeddedRatio (o : Ontology) (f m l : Model) : Double :=
  ratio (embedded o (ownLabels o [f]) (need o [f]) l) (embedded o (ownLabels o [f]) (offer o m) l)

theorem isAmount_embeddedRatio (h : (embeddedRatio o f m l).isFinite = true) :
    IsAmount (embeddedRatio o f m l) ∧
      ((embedded o (ownLabels o [f]) (need o [f]) l).amount = 0 ∨
        (embedded o (ownLabels o [f]) (offer o m) l).amount = 0 →
        (embeddedRatio o f m l).amount = 0) :=
  isAmount_ratio (isAmount_embedded (isAmount_need o [f]) l)
    (isAmount_embedded (isAmount_offer o m) l) h

theorem ofModels_own (o : Ontology) (f m : Model) : ofModels o [m] (ownLabels o [f]) true =
    .ok (tabulate (ownLabels o [f]) (offer o m)) := by
  have hlabels : (ownLabels o [f]).isEmpty = false :=
    List.isEmpty_eq_false_iff.2 (ownLabels_ne_nil (List.cons_ne_nil f []))
  rw [ofModels_eq (nodup_ownLabels o [f]), hlabels, if_neg Bool.false_ne_true]
  rfl

theorem ratios_need_offer (o : Ontology) (f m : Model) :
    (tabulate (ownLabels o [f]) (need o [f])).ratios (tabulate (ownLabels o [f]) (offer o m)) =
      tabulate (ownLabels o [f]) fun l => ratio (need o [f] l) (offer o m l) := by
  rw [ratios_tabulate]
  exact tabulate_congr fun l hl => by rw [get_tabulate hl]

theorem ratios_embedClasses (o : Ontology) (f m : Model) :
    ((tabulate (ownLabels o [f]) (need o [f])).embedClasses o).ratios
      ((tabulate (ownLabels o [f]) (offer o m)).embedClasses o) =
    tabulate (ownLabels o [f]) (embeddedRatio o f m) := by
  have hnodup := nodup_ownLabels o [f]
  rw [embedClasses_tabulate hnodup, embedClasses_tabulate hnodup, ratios_tabulate]
  exact tabulate_congr fun l hl => by rw [get_tabulate hl, embeddedRatio]

/-- The bound of a model is its largest ratio, rounded up. -/
theorem saturationOf_eq (hneed : ¬ NeedsNothing o [f]) (m : Model) : saturationOf o f m =
    .ok (.ofNat (ratioBound (tabulate (ownLabels o [f]) (embeddedRatio o f m)))) := by
  have hown : ownNeed o f = .ok (tabulate (ownLabels o [f]) (need o [f])) := by
    rw [ownNeed, requirement_eq]
    simp only [bind, Except.bind, pure, Except.pure]
    rw [if_neg (mt isNull_tabulate_need.1 hneed)]
  rw [saturationOf, hown]
  simp only [bind, Except.bind, labels_tabulate, ofModels_own, Except.mapError, pure, Except.pure,
    ratios_embedClasses]
  rfl

theorem toNat_saturationOf {n : UInt32} (hneed : ¬ NeedsNothing o [f])
    (h : saturationOf o f m = .ok n) :
    n.toNat = ratioBound (tabulate (ownLabels o [f]) (embeddedRatio o f m)) := by
  rw [saturationOf_eq hneed, Except.ok.injEq] at h
  rw [← h]
  exact UInt32.toNat_ofNat_of_lt' (Nat.lt_of_le_of_lt (ratioBound_le _) (by decide))

/-- A provider that offers nothing of what is needed is of no use. -/
theorem saturationOf_eq_zero (ho : o.IsTransitive) (hneed : ¬ NeedsNothing o [f])
    (h : ∀ l ∈ ownLabels o [f], unitsFor o [f] false l ≠ 0 → unitsFor o [m] true l = 0) :
    saturationOf o f m = .ok 0 := by
  have hembedded : ∀ (models : List Model) (offered : Bool) (l : Model),
      unitsFor o models offered l = 0 → (embedded o (ownLabels o [f])
        (fun k => .ofNat (unitsFor o models offered k)) l).amount = 0 := by
    intro models offered l hzero
    refine embedded_eq_zero (fun k => Double.isAmount_ofNat _) (fun k hk _ => ?_)
      (Double.amount_ofNat_eq_zero_iff.2 hzero)
    have hsub : o.isSameOrSubclassOf k l = true := Bool.or_eq_true_iff.2 (.inr hk)
    have hle : unitsFor o models offered k ≤ unitsFor o models offered l := unitsFor_mono ho hsub
    exact Double.amount_ofNat_eq_zero_iff.2 (by omega)
  have hzero : ratioBound (tabulate (ownLabels o [f]) (embeddedRatio o f m)) = 0 := by
    refine ratioBound_eq_zero (fun l hfin => (isAmount_embeddedRatio hfin).1) fun l hl hfin => ?_
    refine (isAmount_embeddedRatio hfin).2 ?_
    by_cases hnone : unitsFor o [f] false l = 0
    · exact .inl (hembedded [f] false l hnone)
    · exact .inr (hembedded [m] true l (h l hl hnone))
  rw [saturationOf_eq hneed, hzero]
  rfl

/-- Whether numbers of units are so small that arithmetic with them is exact. -/
def IsExact (v : SupportVector) : Prop := ∀ e ∈ v.entries, e.2 < .ofNat (2 ^ 53)

instance (v : SupportVector) : Decidable (IsExact v) :=
  inferInstanceAs (Decidable (∀ e ∈ v.entries, _))

theorem IsExact.lt {n : Model → Nat} (h : IsExact (tabulate labels fun k => .ofNat (n k)))
    (hl : l ∈ labels) : n l < 2 ^ 53 := by
  have hlt := h (l, .ofNat (n l)) (List.mem_map_of_mem hl)
  rw [(Double.isAmount_ofNat _).lt_iff (Double.isAmount_ofNat _)] at hlt
  by_contra hle
  exact Nat.not_lt_of_le (Double.amount_ofNat_mono (Nat.le_of_not_lt hle)) hlt

/-- As many instances as the largest ratio says meet each need that one instance meets in part. -/
theorem need_le_of_ratioBound {fs : List Model} {k : Nat}
    (hl : l ∈ ownLabels o fs) (hneed : unitsFor o fs false l ≠ 0)
    (hoffer : unitsFor o [m] true l ≠ 0)
    (hneed' : unitsFor o fs false l < 2 ^ 53) (hoffer' : unitsFor o [m] true l < 2 ^ 53)
    (hk : ratioBound (tabulate (ownLabels o fs) fun l => ratio (need o fs l) (offer o m l)) ≤ k)
    (hlimit : k < countLimit) :
    0 < k ∧ (need o fs l).amount ≤ (offer o m l * .ofNat k).amount := by
  have hcount : countLimit < 2 ^ 53 := by decide
  have hypos := Nat.pos_of_ne_zero hoffer
  have hy := Double.amount_ofNat_pos hypos
  have heq : ratio (need o fs l) (offer o m l) = need o fs l / offer o m l :=
    ratio_of_pos (isAmount_offer o m l) hy
  have hfin : (ratio (need o fs l) (offer o m l)).isFinite = true := by
    rw [heq]
    exact Double.isFinite_div_ofNat hneed' hoffer' hypos
  have hbound : (need o fs l / offer o m l).amount ≤ k * unitsPerOne := by
    rw [← heq]
    refine ((le_ratioBound (fun l hfin => (isAmount_ratio (isAmount_need o fs l)
      (isAmount_offer o m l) hfin).1) hl hfin).resolve_right (by omega)).trans ?_
    exact Nat.mul_le_mul_right _ hk
  have hkpos : 0 < k := by
    have hpos := Double.amount_div_ofNat_pos hneed' hoffer' (Nat.pos_of_ne_zero hneed) hypos
    refine Nat.pos_of_ne_zero fun hzero => ?_
    rw [hzero, Nat.zero_mul] at hbound
    exact Nat.not_lt_of_le hbound hpos
  exact ⟨hkpos, Double.le_mul_of_div_le hneed' hoffer' (by omega) hypos hkpos hbound⟩

/-! ### Bounds for pools -/

theorem saturationOf_ok (o : Ontology) (f m : Model) : ∃ n, saturationOf o f m = .ok n := by
  by_cases hneed : NeedsNothing o [f]
  · have hown : ownNeed o f = .ok (tabulate [f] fun _ => 1) := by
      rw [ownNeed, requirement_eq]
      simp only [bind, Except.bind, pure, Except.pure]
      rw [if_pos (isNull_tabulate_need.2 hneed), ← ofPairs_map (List.nodup_singleton f)]
      rfl
    obtain ⟨v, hv⟩ : ∃ v, ofModels o [m] (tabulate [f] fun _ => (1 : Double)).labels true =
        .ok v := by
      rw [labels_tabulate]
      exact ⟨_, ofModels_eq (List.nodup_singleton f)⟩
    rw [saturationOf, hown]
    simp only [bind, Except.bind, hv, Except.mapError, pure, Except.pure]
    exact ⟨_, rfl⟩
  · exact ⟨_, saturationOf_eq hneed m⟩

theorem saturationAt_plain (o : Ontology) (f m : Model) :
    (⟨f, []⟩ : Resource).saturationAt o m = saturationOf o f m := by
  obtain ⟨n, hn⟩ := saturationOf_ok o f m
  rw [Resource.saturationAt, hn]
  simp [bind, Except.bind, Resource.hasConstraints, pure, Except.pure]

theorem saturationAt_ok (o : Ontology) (r : Resource) (m : Model) :
    ∃ n, r.saturationAt o m = .ok n := by
  obtain ⟨n, hn⟩ := saturationOf_ok o r.model m
  rw [Resource.saturationAt, hn]
  simp only [bind, Except.bind, pure, Except.pure]
  split
  · split
    · exact ⟨_, rfl⟩
    · exact ⟨0, rfl⟩
  · exact ⟨n, rfl⟩

theorem foldlM_saturationAt (o : Ontology) (r : Resource) : ∀ (ms : List Model) (b : Pool),
    ∃ b', ms.foldlM (fun b m => return b.set m (← r.saturationAt o m)) b =
      (.ok b' : Except RequestError Pool) ∧
      ∀ m, (m ∈ ms → r.saturationAt o m = .ok (b'.count m)) ∧
        (m ∉ ms → b'.count m = b.count m)
  | [], b => ⟨b, rfl, fun m => by simp⟩
  | a :: ms, b => by
    obtain ⟨n, hn⟩ := saturationAt_ok o r a
    obtain ⟨b', hb', hcount⟩ := foldlM_saturationAt o r ms (b.set a n)
    refine ⟨b', ?_, fun m => ⟨fun hm => ?_, fun hm => ?_⟩⟩
    · rw [List.foldlM_cons, hn]
      exact hb'
    · by_cases hrest : m ∈ ms
      · exact (hcount m).1 hrest
      · obtain rfl := (List.mem_cons.1 hm).resolve_right hrest
        rw [(hcount m).2 hrest, Pool.count_set, if_pos rfl, hn]
    · rw [List.mem_cons, not_or] at hm
      rw [(hcount m).2 hm.2, Pool.count_set, if_neg hm.1]

/-- The bound of a resource limits each model of the pool by what can be used of it. -/
theorem exists_saturationBound {base : Pool} (hbase : base.isEmpty = false) (o : Ontology)
    (r : Resource) : ∃ b, r.saturationBound o base = .ok b ∧
      ∀ m ∈ base.models, r.saturationAt o m = .ok (b.count m) := by
  obtain ⟨b, hb, hcount⟩ := foldlM_saturationAt o r base.models.toList .empty
  refine ⟨b, ?_, fun m hm => (hcount m).1 hm⟩
  rw [Resource.saturationBound, hbase, if_neg Bool.false_ne_true]
  exact hb

theorem saturationBound_plain {base : Pool} (hbase : base.isEmpty = false) (o : Ontology)
    (f : Model) : ∃ b, (⟨f, []⟩ : Resource).saturationBound o base = .ok b ∧
      ∀ m ∈ base.models, saturationOf o f m = .ok (b.count m) := by
  obtain ⟨b, hb, hcount⟩ := exists_saturationBound hbase o ⟨f, []⟩
  exact ⟨b, hb, fun m hm => (saturationAt_plain o f m).symm.trans (hcount m hm)⟩

theorem saturationOf_of_mem {base own : Pool} (hbase : base.isEmpty = false)
    (hown : (⟨f, []⟩ : Resource).saturationBound o base = .ok own) (hm : m ∈ base.models) :
    saturationOf o f m = .ok (own.count m) := by
  obtain ⟨own', hown', hbound⟩ := saturationBound_plain hbase o f
  obtain rfl := Except.ok.inj (hown.symm.trans hown')
  exact hbound m hm

/-- The bound of several functionalities is not below that of any of them. -/
theorem foldlM_saturationBound {base : Pool} (hbase : base.isEmpty = false) (o : Ontology) :
    ∀ (fs : List Model) (b : Pool), ∃ b', (fs.map fun f => (⟨f, []⟩ : Resource)).foldlM
      (fun b r => return b.max (← r.saturationBound o base)) b =
        (.ok b' : Except RequestError Pool) ∧ b.isSubset b' = true ∧
      ∀ f ∈ fs, ∀ c, (⟨f, []⟩ : Resource).saturationBound o base = .ok c → c.isSubset b' = true
  | [], b => ⟨b, rfl, Pool.isSubset_refl b, fun f hf => absurd hf List.not_mem_nil⟩
  | f :: fs, b => by
    obtain ⟨c, hc, -⟩ := saturationBound_plain hbase o f
    obtain ⟨b', hb', hle, hall⟩ := foldlM_saturationBound hbase o fs (b.max c)
    refine ⟨b', ?_, Pool.isSubset_trans (Pool.isSubset_max_left b c) hle, fun g hg d hd => ?_⟩
    · rw [List.map_cons, List.foldlM_cons, hc]
      exact hb'
    · rcases List.mem_cons.1 hg with rfl | hg
      · obtain rfl := Except.ok.inj (hd.symm.trans hc)
        exact Pool.isSubset_trans (Pool.isSubset_max_right b d) hle
      · exact hall g hg d hd

theorem saturationBound_all {base : Pool} (hbase : base.isEmpty = false) (o : Ontology)
    (fs : List Model) : ∃ b, base.saturationBound o (fs.map fun f => ⟨f, []⟩) = .ok b ∧
      ∀ f ∈ fs, ∀ c, (⟨f, []⟩ : Resource).saturationBound o base = .ok c → c.isSubset b = true := by
  obtain ⟨b, hb, -, hall⟩ := foldlM_saturationBound hbase o fs .empty
  exact ⟨b, hb, hall⟩

end SupportVector
end Muster
