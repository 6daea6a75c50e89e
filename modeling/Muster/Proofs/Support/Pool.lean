import Muster.Proofs.Pool.Counts
import Muster.Proofs.Support.Vector

/-!
How well pools serve functionalities, label by label. A request for support is always answered: a
pool serves functionalities fully just if its supply of each label is not below the need. What an
entry supplies grows with its count, so a larger pool never serves worse, and models that offer
nothing of a label can be left out of its supply.

Main statements: `requirement_eq`, `supportType_eq`, `supportType_eq_full_iff`,
`unitsFor_of_noSupport`, `supply_le_of_offered`, `Serves.mono`, `supportType_congr`.
-/

namespace Muster

open Std
open Double (amount IsAmount)

namespace SupportVector

variable {o : Ontology} {labels : List Model} {l m : Model}

/-! ### Needs and supplies -/

/-- What functionalities need of a label. -/
def need (o : Ontology) (fs : List Model) (l : Model) : Double := .ofNat (unitsFor o fs false l)

/-- What one instance of a model offers of a label. -/
def offer (o : Ontology) (m l : Model) : Double := .ofNat (unitsFor o [m] true l)

/-- What some entries of a pool offer of a label together. -/
def supply (o : Ontology) (l : Model) (es : List (Model × UInt32)) : Double :=
  es.foldl (fun sum e => sum + offer o e.1 l * .ofNat e.2.toNat) 0

theorem isAmount_need (o : Ontology) (fs : List Model) (l : Model) : IsAmount (need o fs l) :=
  Double.isAmount_ofNat _

theorem amount_need_eq_zero_iff {fs : List Model} :
    (need o fs l).amount = 0 ↔ unitsFor o fs false l = 0 := Double.amount_ofNat_eq_zero_iff

theorem isAmount_offer (o : Ontology) (m l : Model) : IsAmount (offer o m l) :=
  Double.isAmount_ofNat _

section Supply

variable {es fs : List (Model × UInt32)}

theorem isAmount_term {e : Model × UInt32} (he : e.2 ≠ 0) :
    IsAmount (offer o e.1 l * .ofNat e.2.toNat) :=
  (isAmount_offer o e.1 l).mul_ofNat (Pool.toNat_pos he) (Pool.toNat_lt_exact e.2)

theorem amount_term_eq_zero_iff {e : Model × UInt32} (he : e.2 ≠ 0) :
    (offer o e.1 l * .ofNat e.2.toNat).amount = 0 ↔ unitsFor o [e.1] true l = 0 := by
  rw [Double.amount_mul_ofNat_eq_zero_iff (isAmount_offer o e.1 l) (Pool.toNat_pos he)
    (Pool.toNat_lt_exact e.2), offer, Double.amount_ofNat_eq_zero_iff]

theorem isAmount_supply (hes : ∀ e ∈ es, e.2 ≠ 0) : IsAmount (supply o l es) :=
  Double.isAmount_foldl Double.isAmount_zero fun e he => isAmount_term (hes e he)

/-- Larger entries supply no less. -/
theorem supply_mono (hes : ∀ e ∈ es, e.2 ≠ 0) (hfs : ∀ e ∈ fs, e.2 ≠ 0)
    (h : List.SublistForall₂ Pool.EntryLe es fs) :
    (supply o l es).amount ≤ (supply o l fs).amount := by
  refine Double.amount_foldl_mono (fun e he => isAmount_term (hes e he))
    (fun e he => isAmount_term (hfs e he)) ?_ h Double.isAmount_zero Double.isAmount_zero
    (Nat.le_refl _)
  intro e f he hf hle
  rw [hle.1]
  exact Double.amount_mul_ofNat_mono (isAmount_offer o f.1 l) (Pool.toNat_pos (hes e he))
    (UInt32.le_iff_toNat_le.1 hle.2) (Pool.toNat_lt_exact f.2)

/-- Nothing is supplied of a label just if no entry offers it. -/
theorem supply_eq_zero_iff (hes : ∀ e ∈ es, e.2 ≠ 0) :
    (supply o l es).amount = 0 ↔ ∀ e ∈ es, unitsFor o [e.1] true l = 0 := by
  have hterms : ∀ e ∈ es, IsAmount (offer o e.1 l * .ofNat e.2.toNat) :=
    fun e he => isAmount_term (hes e he)
  rw [supply, Double.amount_foldl_eq_zero_iff Double.isAmount_zero hterms]
  simp only [Double.amount_zero, true_and]
  exact forall₂_congr fun e he => amount_term_eq_zero_iff (hes e he)

/-- Entries that offer nothing of a label can be left out. -/
theorem supply_filter {keep : Model × UInt32 → Bool} (hes : ∀ e ∈ es, e.2 ≠ 0)
    (hdrop : ∀ e ∈ es, keep e = false → unitsFor o [e.1] true l = 0) :
    supply o l (es.filter keep) = supply o l es := by
  refine Double.foldl_filter_eq Double.isAmount_zero (fun e he => isAmount_term (hes e he)) ?_
  exact fun e he hkeep => (amount_term_eq_zero_iff (hes e he)).2 (hdrop e he hkeep)

theorem term_le_supply (hes : ∀ e ∈ es, e.2 ≠ 0) {e : Model × UInt32} (he : e ∈ es) :
    (offer o e.1 l * .ofNat e.2.toNat).amount ≤ (supply o l es).amount :=
  Double.amount_term_le_foldl Double.isAmount_zero (fun f hf => isAmount_term (hes f hf)) he

end Supply

/-! ### What is computed -/

theorem requirement_eq (o : Ontology) (fs : List Model) :
    requirement o fs = .ok (tabulate (ownLabels o fs) (need o fs)) := by
  rw [requirement, ofModels_eq List.nodup_nil]
  rfl

theorem get_offer (hnodup : labels.Nodup) (m : Model) :
    ∃ v, ofModels o [m] labels true = .ok v ∧ ∀ l ∈ labels, v.get l = offer o m l := by
  refine ⟨_, ofModels_eq hnodup, fun l hl => ?_⟩
  have hne : labels.isEmpty = false := List.isEmpty_eq_false_iff.2 (List.ne_nil_of_mem hl)
  rw [hne, if_neg Bool.false_ne_true, get_tabulate hl]
  rfl

theorem foldlM_accumulate (hnodup : labels.Nodup) : ∀ (es : List (Model × UInt32))
    (g : Model → Double), es.foldlM (fun sum e => do
      let offer ← (ofModels o [e.1] labels true).mapError RequestError.model
      return sum.accumulate offer (.ofNat e.2.toNat)) (tabulate labels g) =
    .ok (tabulate labels fun l =>
      es.foldl (fun sum e => sum + offer o e.1 l * .ofNat e.2.toNat) (g l))
  | [], _ => rfl
  | e :: rest, g => by
    obtain ⟨v, hv, hget⟩ := get_offer (o := o) hnodup e.1
    have hstep : (tabulate labels g).accumulate v (.ofNat e.2.toNat) =
        tabulate labels fun l => g l + offer o e.1 l * .ofNat e.2.toNat := by
      rw [accumulate_tabulate]
      exact tabulate_congr fun l hl => by rw [hget l hl]
    rw [List.foldlM_cons, hv]
    show rest.foldlM _ ((tabulate labels g).accumulate v (.ofNat e.2.toNat)) = _
    rw [hstep, foldlM_accumulate hnodup rest]
    rfl

theorem availability_eq (o : Ontology) (pool : Pool) (hnodup : labels.Nodup) :
    availability o pool labels =
      .ok (tabulate labels fun l => supply o l pool.normalized.entries) := by
  rw [availability, zeros_eq hnodup]
  exact foldlM_accumulate hnodup _ _

section SupportFrom

variable {g h : Model → Double} (hg : ∀ l, IsAmount (g l)) (hh : ∀ l, IsAmount (h l))

include hg

theorem filter_needed : ((tabulate labels g).entries.filter fun e => !decide (e.2 ≤ 0)) =
    (labels.filter fun l => decide (0 < (g l).amount)).map fun l => (l, g l) := by
  rw [tabulate, List.filter_map]
  refine congrArg _ (List.filter_congr fun l _ => ?_)
  have hiff : ¬ g l ≤ 0 ↔ 0 < (g l).amount := by
    rw [(hg l).le_iff Double.isAmount_zero, Double.amount_zero, Nat.not_le]
  show (!decide (g l ≤ 0)) = _
  rw [← decide_not]
  exact decide_eq_decide.2 hiff

include hh

/-- A need is served fully if nothing is offered too little of, and in part if something that is
needed is offered. -/
theorem supportFrom_tabulate : (tabulate labels g).supportFrom (tabulate labels h) =
    if ∀ l ∈ labels, (g l).amount ≤ (h l).amount then .fullSupport
    else if ∃ l ∈ labels, 0 < (g l).amount ∧ 0 < (h l).amount then .partialSupport
    else .noSupport := by
  have hall : ((labels.filter fun l => decide (0 < (g l).amount)).map fun l => (l, g l)).all
      (fun e => !decide ((tabulate labels h).get e.1 < e.2)) = true ↔
      ∀ l ∈ labels, (g l).amount ≤ (h l).amount := by
    rw [List.all_map, List.all_eq_true]
    refine ⟨fun hserved l hl => ?_, fun hle l hl => ?_⟩
    · by_cases hpos : 0 < (g l).amount
      · have := hserved l (List.mem_filter.2 ⟨hl, decide_eq_true hpos⟩)
        simpa [get_tabulate hl, (hh l).lt_iff (hg l)] using this
      · omega
    · have hmem := (List.mem_filter.1 hl).1
      simpa [get_tabulate hmem, (hh l).lt_iff (hg l)] using hle l hmem
  have hany : ((labels.filter fun l => decide (0 < (g l).amount)).map fun l => (l, g l)).any
      (fun e => decide (0 < (tabulate labels h).get e.1)) = true ↔
      ∃ l ∈ labels, 0 < (g l).amount ∧ 0 < (h l).amount := by
    rw [List.any_map, List.any_eq_true]
    constructor
    · rintro ⟨l, hl, hoffer⟩
      obtain ⟨hmem, hpos⟩ := List.mem_filter.1 hl
      refine ⟨l, hmem, of_decide_eq_true hpos, ?_⟩
      simpa [get_tabulate hmem, Double.isAmount_zero.lt_iff (hh l), Double.amount_zero] using hoffer
    · rintro ⟨l, hl, hpos, hoffer⟩
      refine ⟨l, List.mem_filter.2 ⟨hl, decide_eq_true hpos⟩, ?_⟩
      simpa [get_tabulate hl, Double.isAmount_zero.lt_iff (hh l), Double.amount_zero] using hoffer
  rw [supportFrom, filter_needed hg]
  simp only [hall, hany]

end SupportFrom

end SupportVector

namespace Pool

open SupportVector

variable {o : Ontology} {fs : List Model} {p q : Pool} {l m : Model}

/-- Whether a pool supplies what functionalities need, label by label. -/
def Serves (o : Ontology) (fs : List Model) (p : Pool) : Prop := ∀ l ∈ ownLabels o fs,
  (need o fs l).amount ≤ (supply o l p.normalized.entries).amount

instance (o : Ontology) (fs : List Model) (p : Pool) : Decidable (Serves o fs p) :=
  inferInstanceAs (Decidable (∀ l ∈ ownLabels o fs, _ ≤ _))

theorem supportType_eq (o : Ontology) (fs : List Model) (p : Pool) : supportType o fs p = .ok
    (if Serves o fs p then .fullSupport
      else if ∃ l ∈ ownLabels o fs, 0 < (need o fs l).amount ∧
        0 < (supply o l p.normalized.entries).amount then .partialSupport
      else .noSupport) := by
  have havail : availability o p (tabulate (ownLabels o fs) (need o fs)).labels =
      .ok (tabulate (ownLabels o fs) fun l => supply o l p.normalized.entries) := by
    rw [labels_tabulate, availability_eq o p (nodup_ownLabels o fs)]
  rw [supportType, requirement_eq]
  simp only [bind, Except.bind, havail]
  exact congrArg Except.ok (supportFrom_tabulate (isAmount_need o fs)
    fun l => isAmount_supply (isNormal_normalized p))

theorem supportType_eq_full_iff : supportType o fs p = .ok .fullSupport ↔ Serves o fs p := by
  rw [supportType_eq]
  split_ifs <;> simp [*]

/-- Without any support, no entry offers anything of what is needed. -/
theorem unitsFor_of_noSupport (h : supportType o fs p = .ok .noSupport) (hl : l ∈ ownLabels o fs)
    (hneed : unitsFor o fs false l ≠ 0) (hm : p.count m ≠ 0) : unitsFor o [m] true l = 0 := by
  rw [supportType_eq, Except.ok.injEq] at h
  split_ifs at h with hfull hpart
  have hnormal := isNormal_normalized p
  rw [← count_normalized] at hm
  refine (supply_eq_zero_iff hnormal).1 ?_ _ (mem_entries_of_count_ne_zero hm)
  by_contra hpos
  exact hpart ⟨l, hl, Double.amount_ofNat_pos (Nat.pos_of_ne_zero hneed), Nat.pos_of_ne_zero hpos⟩

theorem supportType_ok (o : Ontology) (fs : List Model) (p : Pool) :
    ∃ t, supportType o fs p = .ok t := ⟨_, supportType_eq o fs p⟩

theorem isSupporting_eq : isSupporting o fs p = .ok (decide (Serves o fs p)) := by
  obtain ⟨t, ht⟩ := supportType_ok o fs p
  have hiff : supportType o fs p = .ok .fullSupport ↔ Serves o fs p := supportType_eq_full_iff
  rw [ht, Except.ok.injEq] at hiff
  have hbool : (t == .fullSupport) = decide (Serves o fs p) := by
    rw [Bool.eq_iff_iff, beq_iff_eq, decide_eq_true_iff]
    exact hiff
  rw [isSupporting, ht, ← hbool]
  rfl

/-- Only the counts matter. -/
theorem serves_congr (h : ∀ m, p.count m = q.count m) : Serves o fs p ↔ Serves o fs q := by
  rw [Serves, Serves, normalized_congr h]

/-- A pool with no fewer instances of the models that offer a label supplies no less of it. -/
theorem supply_le_of_offered (h : ∀ a, unitsFor o [a] true l ≠ 0 → p.count a ≤ q.count a) :
    (supply o l p.normalized.entries).amount ≤ (supply o l q.normalized.entries).amount := by
  have hp := isNormal_normalized p
  have hdrop : supply o l (p.normalized.entries.filter fun e => unitsFor o [e.1] true l != 0) =
      supply o l p.normalized.entries := supply_filter hp fun e _ he => by simpa using he
  rw [← hdrop]
  refine supply_mono (fun e he => hp e (List.mem_filter.1 he).1) (isNormal_normalized q)
    (sublistForall₂_of_ascending (p.normalized.counts.ascending.sublist List.filter_sublist)
      q.normalized.counts.ascending fun e he => ?_)
  obtain ⟨hmem, hoffer⟩ := List.mem_filter.1 he
  have hle := h e.1 (bne_iff_ne.1 hoffer)
  rw [← count_normalized p, ← count_normalized q, count_eq_of_mem hmem] at hle
  have hne : q.normalized.count e.1 ≠ 0 := fun hzero =>
    hp e hmem (UInt32.le_antisymm (hzero ▸ hle) UInt32.zero_le)
  exact ⟨_, mem_entries_of_count_ne_zero hne, rfl, hle⟩

/-- A larger pool never serves worse. -/
theorem Serves.mono (h : Serves o fs p) (hle : p.isSubset q = true) : Serves o fs q :=
  fun l hl => (h l hl).trans (supply_le_of_offered fun a _ => isSubset_iff.1 hle a)

/-- Pools serve equally well if, of each label that is needed, they supply the same or both supply
enough. -/
theorem supportType_congr (h : ∀ l ∈ ownLabels o fs, unitsFor o fs false l ≠ 0 →
    (supply o l p.normalized.entries).amount = (supply o l q.normalized.entries).amount ∨
      ((need o fs l).amount ≤ (supply o l p.normalized.entries).amount ∧
        (need o fs l).amount ≤ (supply o l q.normalized.entries).amount)) :
    supportType o fs p = supportType o fs q := by
  have hserves : Serves o fs p ↔ Serves o fs q := by
    refine forall₂_congr fun l hl => ?_
    by_cases hzero : unitsFor o fs false l = 0
    · rw [amount_need_eq_zero_iff.2 hzero]
      exact iff_of_true (Nat.zero_le _) (Nat.zero_le _)
    · rcases h l hl hzero with heq | ⟨hle, hle'⟩
      · rw [heq]
      · exact iff_of_true hle hle'
  have hpart : (∃ l ∈ ownLabels o fs, 0 < (need o fs l).amount ∧
      0 < (supply o l p.normalized.entries).amount) ↔ ∃ l ∈ ownLabels o fs,
        0 < (need o fs l).amount ∧ 0 < (supply o l q.normalized.entries).amount := by
    refine exists_congr fun l => and_congr_right fun hl => and_congr_right fun hpos => ?_
    have hneed : unitsFor o fs false l ≠ 0 := fun hzero =>
      hpos.ne' (amount_need_eq_zero_iff.2 hzero)
    rcases h l hl hneed with heq | ⟨hle, hle'⟩
    · rw [heq]
    · exact iff_of_true (hpos.trans_le hle) (hpos.trans_le hle')
  rw [supportType_eq, supportType_eq]
  simp only [hserves, hpart]

end Pool
end Muster
