import Muster.Proofs.Functionality.Agreement

/-!
Instances beyond the saturation bound. A model that offers something of each label that it is needed
for meets all these needs by as many instances as its largest ratio says, and of the other labels no
number of instances supplies anything. So from that number on, further instances change no support.
The bound that is computed is not below that number unless embedding the classes lowers it.

Main statements: `supportType_set_of_ratioBound`, `exists_saturationOf_forall_le`.
-/

namespace Muster.Pool

open SupportVector

variable {o : Ontology} {p : Pool} {f l m : Model} {j k : UInt32}

/-- A model that offers nothing of a label may have any count. -/
theorem supply_set_of_unitsFor_eq_zero (hzero : unitsFor o [m] true l = 0) (p : Pool)
    (j k : UInt32) : (supply o l (p.set m j).normalized.entries).amount =
      (supply o l (p.set m k).normalized.entries).amount := by
  have hcount : ∀ j k a, unitsFor o [a] true l ≠ 0 → (p.set m j).count a ≤ (p.set m k).count a := by
    intro j k a ha
    have hne : a ≠ m := by
      rintro rfl
      exact ha hzero
    rw [count_set, count_set, if_neg hne, if_neg hne]
    exact UInt32.le_refl _
  exact Nat.le_antisymm (supply_le_of_offered (hcount j k)) (supply_le_of_offered (hcount k j))

theorem isSubset_set (p : Pool) (m : Model) (h : j ≤ k) :
    (p.set m j).isSubset (p.set m k) = true := by
  rw [isSubset_iff]
  intro a
  rw [count_set, count_set]
  split
  · exact h
  · exact UInt32.le_refl _

/-- From the largest ratio on, further instances change no support. -/
theorem supportType_set_of_ratioBound
    (hneed : ∀ l ∈ ownLabels o [f], unitsFor o [f] false l < 2 ^ 53)
    (hoffer : ∀ l ∈ ownLabels o [f], unitsFor o [m] true l < 2 ^ 53)
    (hj : ratioBound (tabulate (ownLabels o [f]) fun l =>
      ratio (need o [f] l) (offer o m l)) ≤ j.toNat)
    (hle : j ≤ k) (p : Pool) :
    supportType o [f] (p.set m k) = supportType o [f] (p.set m j) := by
  have hle' := UInt32.le_iff_toNat_le.1 hle
  by_cases hlimit : j.toNat < countLimit
  · refine supportType_congr fun l hl _ => ?_
    by_cases hzero : unitsFor o [m] true l = 0
    · exact .inl (supply_set_of_unitsFor_eq_zero hzero p k j)
    · have hcount : (p.set m j).count m = j := by rw [count_set, if_pos rfl]
      have hmet : (need o [f] l).amount ≤ (supply o l (p.set m j).normalized.entries).amount :=
        need_le_supply hl hzero (hneed l hl) (hoffer l hl) (hcount.symm ▸ hj) (hcount.symm ▸ hlimit)
      have hmono : (supply o l (p.set m j).normalized.entries).amount ≤
          (supply o l (p.set m k).normalized.entries).amount :=
        supply_le_of_offered fun a _ => isSubset_iff.1 (isSubset_set p m hle) a
      exact .inr ⟨hmet.trans hmono, hmet⟩
  · -- no count is larger than the largest
    have hk := k.toNat_lt
    have heq : k = j := UInt32.toNat_inj.1 (by rw [countLimit] at hlimit; omega)
    rw [heq]

/-- The saturation bound is the largest ratio of the need to the offer with the classes embedded,
rounded up. Instances beyond the largest plain ratio change no support. So instances beyond the
bound change none, if embedding the classes does not lower it. -/
theorem exists_saturationOf_forall_le (o : Ontology) (f m : Model) : ∃ need offer n,
    requirement o [f] = .ok need ∧ ofModels o [m] need.labels true = .ok offer ∧
      saturationOf o f m = .ok n ∧
      (need.isNull = false →
        n.toNat = ratioBound ((need.embedClasses o).ratios (offer.embedClasses o))) ∧
      (need.IsExact → offer.IsExact →
        (∀ (p : Pool) (j k : UInt32), ratioBound (need.ratios offer) ≤ j.toNat → j ≤ k →
          supportType o [f] (p.set m k) = supportType o [f] (p.set m j)) ∧
        ((need.isNull = false → KeepsBound o need offer) → ∀ (p : Pool) (k : UInt32), n ≤ k →
          supportType o [f] (p.set m k) = supportType o [f] (p.set m n))) := by
  obtain ⟨n, hn⟩ := saturationOf_ok o f m
  refine ⟨_, _, n, requirement_eq o [f], by rw [labels_tabulate, ofModels_own], hn, fun hneed => ?_,
    fun hneed hoffer => ?_⟩
  · rw [ratios_embedClasses]
    refine toNat_saturationOf (fun hnothing => ?_) hn
    exact Bool.false_ne_true (hneed.symm.trans (isNull_tabulate_need.2 hnothing))
  have hbeyond : ∀ (p : Pool) (j k : UInt32), ratioBound ((tabulate (ownLabels o [f])
      (SupportVector.need o [f])).ratios (tabulate (ownLabels o [f]) (SupportVector.offer o m))) ≤
        j.toNat → j ≤ k → supportType o [f] (p.set m k) = supportType o [f] (p.set m j) := by
    intro p j k hj hle
    rw [ratios_need_offer] at hj
    exact supportType_set_of_ratioBound (fun l hl => hneed.lt hl) (fun l hl => hoffer.lt hl) hj hle p
  refine ⟨hbeyond, fun hkeeps p k hk => ?_⟩
  by_cases hnothing : NeedsNothing o [f]
  · rw [supportType_eq_full_iff.2 (serves_of_needsNothing hnothing _),
      supportType_eq_full_iff.2 (serves_of_needsNothing hnothing _)]
  · refine hbeyond p n k ?_ hk
    have hle := hkeeps (Bool.not_eq_true _ ▸ mt isNull_tabulate_need.1 hnothing)
    rwa [KeepsBound, ratios_embedClasses, ← toNat_saturationOf hnothing hn] at hle

theorem exists_saturationOf_forall_le_rovers :
    saturationOf roversWithArms.build.ontology ⟨"Dig"⟩ ⟨"Rover"⟩ = .ok 2 ∧
      supportType roversWithArms.build.ontology [⟨"Dig"⟩] ((rovers 1).set ⟨"Rover"⟩ 7) =
        supportType roversWithArms.build.ontology [⟨"Dig"⟩] ((rovers 1).set ⟨"Rover"⟩ 2) := by
  obtain ⟨need, offer, n, hneed, hoffer, hn, -, hbeyond⟩ :=
    exists_saturationOf_forall_le roversWithArms.build.ontology ⟨"Dig"⟩ ⟨"Rover"⟩
  obtain ⟨need', hneed', htest⟩ : ∃ need, requirement roversWithArms.build.ontology [⟨"Dig"⟩] =
      .ok need ∧ (decide need.IsExact && (ofModels roversWithArms.build.ontology [⟨"Rover"⟩]
        need.labels true).toOption.any fun offer => decide (offer.IsExact ∧
          KeepsBound roversWithArms.build.ontology need offer)) = true :=
    exists_ok_of_any (by decide +kernel)
  obtain rfl := Except.ok.inj (hneed.symm.trans hneed')
  rw [Bool.and_eq_true] at htest
  obtain ⟨offer', hoffer', htest'⟩ := exists_ok_of_any htest.2
  obtain rfl := Except.ok.inj (hoffer.symm.trans hoffer')
  obtain ⟨hexact, hkeeps⟩ := of_decide_eq_true htest'
  obtain ⟨n', hn', htwo⟩ : ∃ n, saturationOf roversWithArms.build.ontology ⟨"Dig"⟩ ⟨"Rover"⟩ =
      .ok n ∧ decide (n = 2) = true := exists_ok_of_any (by decide +kernel)
  obtain rfl := Except.ok.inj (hn.symm.trans hn')
  obtain rfl := of_decide_eq_true htwo
  exact ⟨hn, (hbeyond (of_decide_eq_true htest.1) hexact).2 (fun _ => hkeeps) _ 7 (by decide)⟩

/-- Lifting is bounded by four rovers, as arms count among the tools twice, but it takes six. -/
theorem saturationOf_liftingRovers :
    saturationOf liftingRovers.build.ontology ⟨"Lift"⟩ ⟨"Rover"⟩ = .ok 4 ∧
      supportType liftingRovers.build.ontology [⟨"Lift"⟩] ((rovers 1).set ⟨"Rover"⟩ 6) ≠
        supportType liftingRovers.build.ontology [⟨"Lift"⟩] ((rovers 1).set ⟨"Rover"⟩ 4) := by
  obtain ⟨n, hn, hfour⟩ : ∃ n, saturationOf liftingRovers.build.ontology ⟨"Lift"⟩ ⟨"Rover"⟩ =
      .ok n ∧ decide (n = 4) = true := exists_ok_of_any (by decide +kernel)
  refine ⟨of_decide_eq_true hfour ▸ hn, ?_⟩
  have hsix : Serves liftingRovers.build.ontology [⟨"Lift"⟩] ((rovers 1).set ⟨"Rover"⟩ 6) := by
    decide +kernel
  have hnone : ¬ Serves liftingRovers.build.ontology [⟨"Lift"⟩] ((rovers 1).set ⟨"Rover"⟩ 4) := by
    decide +kernel
  rw [supportType_eq_full_iff.2 hsix, ne_comm, ne_eq, supportType_eq_full_iff]
  exact hnone

end Muster.Pool
