import Muster.Proofs.Wiring.Partial
import Muster.Wiring.Pruning

/-!
Completions of a partial wiring: pairs of open endpoints that link its components. Pairs inside a
component are not needed, so a completion may be taken to cross components only. Every pair then
ends at two endpoints that can still be wired, which is why pruning never leaves a partial wiring
that has a completion.

Main statements: `pruneReason_eq_none`, `Completes.connect`, `Completes.decideEndpoint`.
-/

namespace Muster

open Relation (EqvGen)

namespace PartialWiring

/-- Whether two instances are in one component or joined by a pair. -/
def JoinedBy (w : PartialWiring) (p : WiringProblem) (rest : List (Nat × Nat)) (i j : Nat) : Prop :=
  w.componentOf i = w.componentOf j ∨ ∃ q ∈ rest, p.ownerOf q.1 = i ∧ p.ownerOf q.2 = j

/-- Pairs of open endpoints that together with the wires make a connected wiring. -/
structure Completes (w : PartialWiring) (p : WiringProblem) (rest : List (Nat × Nat)) : Prop where
  fits : ∀ q ∈ rest, q.2 ∈ p.candidates q.1
  isOpen : ∀ x ∈ endsOf rest, w.isOpen x
  disjoint : (endsOf rest).Nodup
  connected : ∀ i < p.instanceCount, ∀ j < p.instanceCount, EqvGen (w.JoinedBy p rest) i j

/-- Whether some choices of pairs lead to a connected wiring. -/
def IsCompletable (w : PartialWiring) (p : WiringProblem) : Prop := ∃ rest, w.Completes p rest

theorem completes_ofProblem {p : WiringProblem} {wires : List (Nat × Nat)}
    (h : p.IsConnectedWiring wires) : (ofProblem p).Completes p wires where
  fits := h.fits
  isOpen x _ := isOpen_ofProblem p x
  disjoint := h.disjoint
  connected i hi j hj :=
    eqvGen_map (g := id) (fun _ _ h => .rel _ _ (.inr h)) (h.connected i hi j hj)

/-! ### Pairs that cross components -/

/-- Whether a pair joins two components. -/
def crosses (w : PartialWiring) (p : WiringProblem) (q : Nat × Nat) : Bool :=
  w.componentOf (p.ownerOf q.2) != w.componentOf (p.ownerOf q.1)

/-- Pairs inside a component may be left out. -/
theorem Completes.of_sublist {w : PartialWiring} {p : WiringProblem} {rest kept : List (Nat × Nat)}
    (h : w.Completes p rest) (hsub : kept.Sublist rest)
    (hinside : ∀ q ∈ rest, q ∉ kept → w.crosses p q = false) : w.Completes p kept := by
  have hends := endsOf_sublist hsub
  refine ⟨fun q hq => h.fits q (hsub.subset hq), fun x hx => h.isOpen x (hends.subset hx),
    h.disjoint.sublist hends, fun i hi j hj => ?_⟩
  refine eqvGen_map (g := id) (fun a b hab => .rel _ _ ?_) (h.connected i hi j hj)
  rcases hab with hab | ⟨q, hq, rfl, rfl⟩
  · exact .inl hab
  · by_cases hkept : q ∈ kept
    · exact .inr ⟨q, hkept, rfl, rfl⟩
    · have hq := hinside q hq hkept
      rw [crosses, bne_eq_false_iff_eq] at hq
      exact .inl hq.symm

/-- The pairs that cross components are enough. -/
theorem Completes.crossing {w : PartialWiring} {p : WiringProblem} {rest : List (Nat × Nat)}
    (h : w.Completes p rest) : w.Completes p (rest.filter (w.crosses p)) :=
  h.of_sublist List.filter_sublist fun _ hq hnot =>
    Bool.eq_false_of_not_eq_true fun hcross => hnot (List.mem_filter.2 ⟨hq, hcross⟩)

theorem mem_branchable {w : PartialWiring} {p : WiringProblem} {e : Nat} :
    e ∈ w.branchable p ↔ e < p.endpointCount ∧ w.isOpen e ∧ w.openCandidates p e ≠ [] := by
  rw [branchable, List.mem_filter, List.mem_range, Bool.and_eq_true, hasOpenCandidate_iff]

section Crossing

variable {w : PartialWiring} {p : WiringProblem} {rest : List (Nat × Nat)} (hp : p.IsProper)
  (h : w.Completes p rest)
include hp h

/-- The two ends of a pair that crosses components are open candidates of each other. -/
theorem mem_openCandidates_of_crosses {q : Nat × Nat} (hq : q ∈ rest) (hcross : w.crosses p q) :
    q.2 ∈ w.openCandidates p q.1 ∧ q.1 ∈ w.openCandidates p q.2 := by
  have h1 := h.isOpen q.1 (mem_endsOf.2 ⟨q, hq, .inl rfl⟩)
  have h2 := h.isOpen q.2 (mem_endsOf.2 ⟨q, hq, .inr rfl⟩)
  have hne := bne_iff_ne.1 hcross
  exact ⟨mem_openCandidates.2 ⟨h.fits q hq, h2, hne⟩,
    mem_openCandidates.2 ⟨hp.mem_candidates_swap.1 (h.fits q hq), h1, hne.symm⟩⟩

theorem mem_branchable_of_crosses {q : Nat × Nat} (hq : q ∈ rest) (hcross : w.crosses p q) :
    q.1 ∈ w.branchable p ∧ q.2 ∈ w.branchable p := by
  obtain ⟨hlt1, hlt2⟩ := hp.lt_of_mem_candidates (h.fits q hq)
  obtain ⟨h12, h21⟩ := mem_openCandidates_of_crosses hp h hq hcross
  exact ⟨mem_branchable.2 ⟨hlt1, (mem_openCandidates.1 h21).2.1, List.ne_nil_of_mem h12⟩,
    mem_branchable.2 ⟨hlt2, (mem_openCandidates.1 h12).2.1, List.ne_nil_of_mem h21⟩⟩

variable (hw : w.IsSound p) (hcomponents : 1 < w.componentCount)
include hw hcomponents

/-- No component is cut off. -/
theorem exists_exit {r : Nat} (hr : r < p.instanceCount) :
    ∃ e ∈ w.branchable p, w.componentOf (p.ownerOf e) = w.componentOf r := by
  have hother : ∃ j < p.instanceCount, w.componentOf j ≠ w.componentOf r := by
    by_contra hall
    push Not at hall
    refine Nat.not_le_of_lt hcomponents
      ((DisjointSet.components_le_one_iff hw.isPartition).2 fun a ha b hb => ?_)
    rw [hw.length_components] at ha hb
    exact (hall a ha).trans (hall b hb).symm
  obtain ⟨j, hj, hne⟩ := hother
  by_contra hnone
  push Not at hnone
  refine hne ((eqvGen_iff (P := fun x => w.componentOf x = w.componentOf r)
    (fun a b hab => ?_) (h.connected r hr j hj)).1 rfl)
  rcases hab with hab | ⟨q, hq, rfl, rfl⟩
  · rw [hab]
  · by_cases hcross : w.crosses p q
    · obtain ⟨h1, h2⟩ := mem_branchable_of_crosses hp h hq hcross
      exact iff_of_false (hnone _ h1) (hnone _ h2)
    · rw [crosses, bne_iff_ne, not_not] at hcross
      rw [hcross]

/-- To link the components takes two endpoints that can still be wired for each but one. -/
theorem two_mul_le_length_branchable :
    2 * (w.componentCount - 1) ≤ (w.branchable p).length := by
  have hcrossing := h.crossing
  set pairs := rest.filter (w.crosses p) with hpairs
  have hcross : ∀ q ∈ pairs, w.crosses p q := fun q hq => (List.mem_filter.1 hq).2
  have hsub : endsOf pairs ⊆ w.branchable p := by
    intro x hx
    obtain ⟨q, hq, rfl | rfl⟩ := mem_endsOf.1 hx
    · exact (mem_branchable_of_crosses hp hcrossing hq (hcross q hq)).1
    · exact (mem_branchable_of_crosses hp hcrossing hq (hcross q hq)).2
  have hlength := (hcrossing.disjoint.subperm hsub).length_le
  rw [length_endsOf] at hlength
  have hcount : w.componentCount ≤
      (pairs.map fun q => (p.ownerOf q.1, p.ownerOf q.2)).length + 1 := by
    refine DisjointSet.components_le_length hw.isPartition (fun r hr => ?_) fun i hi j hj => ?_
    · obtain ⟨q, hq, rfl⟩ := List.mem_map.1 hr
      obtain ⟨h1, h2⟩ := hp.lt_of_mem_candidates (hcrossing.fits q hq)
      rw [hw.length_components]
      exact ⟨hp.ownerOf_lt _ h1, hp.ownerOf_lt _ h2⟩
    · rw [hw.length_components] at hi hj
      refine eqvGen_map (g := id) (fun a b hab => .rel _ _ ?_) (hcrossing.connected i hi j hj)
      rcases hab with hab | ⟨q, hq, rfl, rfl⟩
      · exact .inl hab
      · exact .inr (List.mem_map.2 ⟨q, hq, rfl⟩)
  rw [List.length_map] at hcount
  omega

/-- A partial wiring that can be completed is not pruned. -/
theorem pruneReason_eq_none : w.pruneReason p = none := by
  have hroots : (w.roots p).all
      ((w.branchable p).map fun e => w.componentOf (p.ownerOf e)).contains = true := by
    refine List.all_eq_true.2 fun r hr => ?_
    rw [roots, List.mem_filter, List.mem_range, beq_iff_eq] at hr
    obtain ⟨e, he, hexit⟩ := exists_exit hp h hw hcomponents hr.1
    rw [List.contains_iff_mem, List.mem_map]
    exact ⟨e, he, hexit.trans hr.2⟩
  have hlength := two_mul_le_length_branchable hp h hw hcomponents
  rw [pruneReason, if_neg (Nat.not_le_of_lt hcomponents)]
  simp only [hroots, Bool.not_true, Bool.false_eq_true, if_false]
  rw [if_neg (Nat.not_lt.2 hlength)]

end Crossing

/-! ### Choices that keep a completion -/

section Keep

variable {w : PartialWiring} {p : WiringProblem} {rest : List (Nat × Nat)}
  (h : w.Completes p rest) (hw : w.IsSound p) {e : Nat} (he : e < p.endpointCount)
include h hw he

/-- A completion that does not use an endpoint is one after leaving it unconnected. -/
theorem Completes.decideEndpoint (hnot : e ∉ endsOf rest) :
    (w.after p ⟨e, none⟩).Completes p rest where
  fits := h.fits
  isOpen x hx := by
    show (w.decideEndpoint e (p.ownerOf e)).isOpen x
    rw [isOpen_decideEndpoint (hw.size_decided.symm ▸ he), h.isOpen x hx, Bool.true_and, bne_iff_ne]
    rintro rfl
    exact hnot hx
  disjoint := h.disjoint
  connected := h.connected

/-- The other pairs of a completion are one after connecting one of its pairs. -/
theorem Completes.connect (hp : p.IsProper) {f : Nat} {q : Nat × Nat} (hq : q ∈ rest)
    (hends : (q.1 = e ∧ q.2 = f) ∨ (q.1 = f ∧ q.2 = e)) (hf : f ∈ w.openCandidates p e) :
    (w.after p ⟨e, some f⟩).Completes p (rest.erase q) := by
  have hmerged := componentOf_connect_eq_iff hw hp he hf
  have hdisjoint := (endsOf_perm (List.perm_cons_erase hq)).nodup_iff.1 h.disjoint
  rw [endsOf_cons, List.nodup_cons, List.nodup_cons, List.mem_cons, not_or] at hdisjoint
  obtain ⟨⟨-, h1⟩, h2, hrest⟩ := hdisjoint
  refine ⟨fun r hr => h.fits r (List.mem_of_mem_erase hr), fun x hx => ?_, hrest,
    fun i hi j hj => ?_⟩
  · rw [isOpen_connect hw hp he hf, h.isOpen x ((endsOf_sublist List.erase_sublist).subset hx)]
    have hxe : x ≠ e := by
      rintro rfl
      rcases hends with ⟨rfl, -⟩ | ⟨-, rfl⟩
      · exact h1 hx
      · exact h2 hx
    have hxf : x ≠ f := by
      rintro rfl
      rcases hends with ⟨-, rfl⟩ | ⟨rfl, -⟩
      · exact h2 hx
      · exact h1 hx
    simp [hxe, hxf]
  · refine eqvGen_map (g := id) (fun a b hab => .rel _ _ ?_) (h.connected i hi j hj)
    rcases hab with hab | ⟨r, hr, rfl, rfl⟩
    · exact .inl ((hmerged a b).2 (.inl hab))
    · by_cases hrq : r = q
      · subst hrq
        rcases hends with ⟨rfl, rfl⟩ | ⟨rfl, rfl⟩
        · exact .inl ((hmerged _ _).2 (.inr (.inl ⟨rfl, rfl⟩)))
        · exact .inl ((hmerged _ _).2 (.inr (.inr ⟨rfl, rfl⟩)))
      · exact .inr ⟨r, (List.mem_erase_of_ne hrq).2 hr, rfl, rfl⟩

end Keep

end PartialWiring
end Muster
