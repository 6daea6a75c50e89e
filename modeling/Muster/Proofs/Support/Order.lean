import Muster.Proofs.Functionality.Minimal

/-!
The answers in their order. A larger pool supplies no less of any label, so it serves
functionalities no worse; and as only counts matter, entries without instances make no difference.

Main statements: `supportOf_cases`, `supportOf_mono`, `exists_supportType_le`.
-/

namespace Muster

open Std

namespace SupportType

theorem isLE_compare_iff {s t : SupportType} : (compare s t).isLE ↔ s.rank ≤ t.rank :=
  Nat.isLE_compare

theorem eq_of_rank_eq {s t : SupportType} (h : s.rank = t.rank) : s = t := by
  cases s <;> cases t <;> first | rfl | cases h

end SupportType

namespace Pool

open SupportVector

variable {o : Ontology} {fs : List Model} {p q : Pool}

/-- Whether a pool supplies something of what functionalities need. -/
def Offers (o : Ontology) (fs : List Model) (p : Pool) : Prop := ∃ l ∈ ownLabels o fs,
  0 < (need o fs l).amount ∧ 0 < (supply o l p.normalized.entries).amount

/-- A larger pool offers no less. -/
theorem Offers.mono (h : Offers o fs p) (hle : p.isSubset q = true) : Offers o fs q := by
  obtain ⟨l, hl, hneed, hsupply⟩ := h
  exact ⟨l, hl, hneed, hsupply.trans_le (supply_le_of_offered fun a _ => isSubset_iff.1 hle a)⟩

/-- An answer is full support, partial support for what is offered too little of, or none. -/
theorem supportOf_cases (o : Ontology) (fs : List Model) (p : Pool) :
    (Serves o fs p ∧ supportOf o fs p = .fullSupport) ∨
    (¬ Serves o fs p ∧ Offers o fs p ∧ supportOf o fs p = .partialSupport) ∨
    (¬ Serves o fs p ∧ ¬ Offers o fs p ∧ supportOf o fs p = .noSupport) := by
  by_cases hserves : Serves o fs p
  · exact .inl ⟨hserves, if_pos hserves⟩
  by_cases hoffers : Offers o fs p
  · exact .inr (.inl ⟨hserves, hoffers, (if_neg hserves).trans (if_pos hoffers)⟩)
  · exact .inr (.inr ⟨hserves, hoffers, (if_neg hserves).trans (if_neg hoffers)⟩)

/-- A larger pool is given no worse an answer. -/
theorem supportOf_mono (hle : p.isSubset q = true) :
    (supportOf o fs p).rank ≤ (supportOf o fs q).rank := by
  rcases supportOf_cases o fs p with ⟨hserves, hp⟩ | ⟨-, hoffers, hp⟩ | ⟨-, -, hp⟩
  · rw [hp, supportOf_eq_full_iff.2 (hserves.mono hle)]
  · rcases supportOf_cases o fs q with ⟨-, hq⟩ | ⟨-, -, hq⟩ | ⟨-, hnot, -⟩
    · rw [hp, hq]
      decide
    · rw [hp, hq]
    · exact absurd (hoffers.mono hle) hnot
  · rw [hp]
    exact Nat.zero_le _

/-- Only the counts matter. -/
theorem supportOf_congr (h : ∀ m, p.count m = q.count m) : supportOf o fs p = supportOf o fs q := by
  have hle : p.isSubset q = true := isSubset_iff.2 fun m => UInt32.le_of_eq (h m)
  have hge : q.isSubset p = true := isSubset_iff.2 fun m => UInt32.le_of_eq (h m).symm
  exact SupportType.eq_of_rank_eq (Nat.le_antisymm (supportOf_mono hle) (supportOf_mono hge))

theorem supportType_normalized (o : Ontology) (fs : List Model) (p : Pool) :
    supportType o fs p.normalized = .ok (supportOf o fs p) := by
  have hcount : ∀ m, p.normalized.count m = p.count m := fun m => count_normalized p m
  rw [supportType_eq_supportOf, supportOf_congr hcount]

/-- Both pools are answered, the larger one no worse, and each as if entries without instances were
left out. -/
theorem exists_supportType_le (o : Ontology) (fs : List Model) (hle : p.isSubset q = true) :
    ∃ s t, supportType o fs p = .ok s ∧ supportType o fs q = .ok t ∧ (compare s t).isLE ∧
      supportType o fs p.normalized = .ok s ∧ supportType o fs q.normalized = .ok t := by
  have hcompare : (compare (supportOf o fs p) (supportOf o fs q)).isLE :=
    SupportType.isLE_compare_iff.2 (supportOf_mono hle)
  exact ⟨_, _, supportType_eq_supportOf, supportType_eq_supportOf, hcompare,
    supportType_normalized o fs p, supportType_normalized o fs q⟩

/-- One rover digs in part and two dig fully. -/
theorem exists_supportType_le_rovers : (rovers 1).isSubset (rovers 2) = true ∧
    supportType roversWithArms.build.ontology [⟨"Dig"⟩] (rovers 1) = .ok .partialSupport ∧
    supportType roversWithArms.build.ontology [⟨"Dig"⟩] (rovers 2) = .ok .fullSupport ∧
    (compare SupportType.partialSupport SupportType.fullSupport).isLE := by
  have hle : (rovers 1).isSubset (rovers 2) = true := by decide +kernel
  obtain ⟨s, t, hs, ht, hcompare, -, -⟩ :=
    exists_supportType_le roversWithArms.build.ontology [⟨"Dig"⟩] hle
  obtain ⟨s', hs', hpartial⟩ : ∃ s, supportType roversWithArms.build.ontology [⟨"Dig"⟩] (rovers 1) =
      .ok s ∧ decide (s = .partialSupport) = true := exists_ok_of_any (by decide +kernel)
  obtain ⟨t', ht', hfull⟩ : ∃ t, supportType roversWithArms.build.ontology [⟨"Dig"⟩] (rovers 2) =
      .ok t ∧ decide (t = .fullSupport) = true := exists_ok_of_any (by decide +kernel)
  obtain rfl := Except.ok.inj (hs.symm.trans hs')
  obtain rfl := Except.ok.inj (ht.symm.trans ht')
  obtain rfl := of_decide_eq_true hpartial
  obtain rfl := of_decide_eq_true hfull
  exact ⟨hle, hs, ht, hcompare⟩

end Pool
end Muster
