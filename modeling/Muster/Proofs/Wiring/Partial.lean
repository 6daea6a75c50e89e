import Muster.Proofs.DisjointSet
import Muster.Proofs.Wiring.Problem
import Muster.Wiring.Trail

/-!
What holds of every partial wiring that choices lead to: the redundant fields agree. Partners are
partners of each other and fit, open endpoints have none, the counters count decided endpoints, the
components are what the wires link, and every wire has merged two components.

Undoing a choice relies on less: the partner may be any open endpoint of another instance, also one
that does not fit or is in the same component.

Main statements: `isSound_ofProblem`, `IsSound.after` (a choice keeps all this),
`IsTidy.undo_entryOf` (undoing a choice gives the wiring before it back).
-/

namespace Muster

open Relation (EqvGen)

namespace PartialWiring

/-- The wiring after a choice. -/
def after (w : PartialWiring) (p : WiringProblem) (c : Choice) : PartialWiring :=
  match c.partner with
  | some f => (w.connect c.endpoint (p.ownerOf c.endpoint) f (p.ownerOf f)).2
  | none => w.decideEndpoint c.endpoint (p.ownerOf c.endpoint)

/-- Whether a wire joins an endpoint of `i` to one of `j`. -/
def Linked (w : PartialWiring) (p : WiringProblem) (i j : Nat) : Prop :=
  ∃ e f, w.partnerOf e = some f ∧ p.ownerOf e = i ∧ p.ownerOf f = j

/-- A choice that a search may make: the endpoint is open, and so is the partner, which fits and
is in another component. -/
structure Allows (w : PartialWiring) (p : WiringProblem) (c : Choice) : Prop where
  endpoint_lt : c.endpoint < p.endpointCount
  isOpen : w.isOpen c.endpoint
  partner_mem : ∀ f, c.partner = some f → f ∈ w.openCandidates p c.endpoint

/-- A choice that can be taken back: the endpoint is open, and so is the partner, which belongs to
another instance. -/
structure Permits (w : PartialWiring) (p : WiringProblem) (c : Choice) : Prop where
  endpoint_lt : c.endpoint < p.endpointCount
  isOpen : w.isOpen c.endpoint
  partner : ∀ f ∈ c.partner, f < p.endpointCount ∧ w.isOpen f ∧
    p.ownerOf f ≠ p.ownerOf c.endpoint

theorem permits_iff {w : PartialWiring} {p : WiringProblem} {c : Choice} : w.Permits p c ↔
    (c.endpoint < p.endpointCount ∧ w.isOpen c.endpoint) ∧
      ∀ f ∈ c.partner, f < p.endpointCount ∧ w.isOpen f ∧ p.ownerOf f ≠ p.ownerOf c.endpoint :=
  ⟨fun h => ⟨⟨h.endpoint_lt, h.isOpen⟩, h.partner⟩, fun h => ⟨h.1.1, h.1.2, h.2⟩⟩

instance (w : PartialWiring) (p : WiringProblem) (c : Choice) : Decidable (w.Permits p c) :=
  decidable_of_iff _ permits_iff.symm

theorem mem_openCandidates {w : PartialWiring} {p : WiringProblem} {e f : Nat} :
    f ∈ w.openCandidates p e ↔
      f ∈ p.candidates e ∧ w.isOpen f ∧
        w.componentOf (p.ownerOf f) ≠ w.componentOf (p.ownerOf e) := by
  rw [openCandidates, List.mem_filter, isOpenOutside, Bool.and_eq_true, bne_iff_ne]

/-- A choice that a search may make can be taken back. -/
theorem Allows.permits {w : PartialWiring} {p : WiringProblem} (hp : p.IsProper) {c : Choice}
    (hc : w.Allows p c) : w.Permits p c where
  endpoint_lt := hc.endpoint_lt
  isOpen := hc.isOpen
  partner f hf := by
    obtain ⟨hcandidate, hopen, -⟩ := mem_openCandidates.1 (hc.partner_mem f hf)
    obtain ⟨-, hlt, howner, -⟩ := (hp.mem_candidates _ _).1 hcandidate
    exact ⟨hlt, hopen, howner⟩

/-! ### Counting decided endpoints -/

/-- The counters count decided endpoints. -/
structure HasCounts (w : PartialWiring) (p : WiringProblem) : Prop where
  size_decided : w.decided.size = p.endpointCount
  size_decidedAt : w.decidedAt.size = p.instanceCount
  decidedCount_eq : w.decidedCount = (List.range p.endpointCount).countP fun e => !w.isOpen e
  decidedAt_eq : ∀ i < p.instanceCount, w.decidedAt.getD i 0 =
    (List.range p.endpointCount).countP fun e => !w.isOpen e && p.ownerOf e == i

theorem isOpen_decideEndpoint {w : PartialWiring} {e : Nat} (he : e < w.decided.size) (i x : Nat) :
    (w.decideEndpoint e i).isOpen x = (w.isOpen x && x != e) := by
  rw [isOpen, decideEndpoint, getD_setIfInBounds]
  by_cases hx : e = x
  · subst hx
    simp [he]
  · simp [hx, Ne.symm hx, isOpen]

theorem countP_range_eq {n e : Nat} (he : e < n) : (List.range n).countP (· == e) = 1 :=
  List.count_eq_one_of_mem List.nodup_range (List.mem_range.2 he)

theorem HasCounts.decideEndpoint {w : PartialWiring} {p : WiringProblem} (h : w.HasCounts p)
    {e : Nat} (he : e < p.endpointCount) (hopen : w.isOpen e) :
    (w.decideEndpoint e (p.ownerOf e)).HasCounts p := by
  have hsize : e < w.decided.size := h.size_decided.symm ▸ he
  refine ⟨?_, ?_, ?_, fun i hi => ?_⟩
  · simpa [PartialWiring.decideEndpoint] using h.size_decided
  · simpa [PartialWiring.decideEndpoint] using h.size_decidedAt
  · show w.decidedCount + 1 = _
    rw [h.decidedCount_eq, ← countP_range_eq he]
    refine (countP_or (fun x _ => ?_) fun x _ hx => ?_).symm
    · rw [isOpen_decideEndpoint hsize]
      by_cases hx : x = e <;> simp [hx, bne]
    · rw [beq_iff_eq.1 hx.2, hopen] at hx
      simp at hx
  · have hmodify : (w.decideEndpoint e (p.ownerOf e)).decidedAt.getD i 0 =
        w.decidedAt.getD i 0 + if p.ownerOf e = i then 1 else 0 := by
      have hi' : i < w.decidedAt.size := h.size_decidedAt.symm ▸ hi
      simp only [PartialWiring.decideEndpoint, Array.getD_eq_getD_getElem?, Array.getElem?_modify]
      split <;> simp [hi']
    rw [hmodify, h.decidedAt_eq i hi]
    by_cases howner : p.ownerOf e = i
    · rw [if_pos howner, ← countP_range_eq he]
      refine (countP_or (fun x _ => ?_) fun x _ hx => ?_).symm
      · rw [isOpen_decideEndpoint hsize]
        by_cases hx : x = e
        · simp [hx, howner]
        · simp [beq_false_of_ne hx, bne]
      · rw [beq_iff_eq.1 hx.2, hopen] at hx
        simp at hx
    · rw [if_neg howner, Nat.add_zero]
      refine List.countP_congr fun x _ => ?_
      rw [isOpen_decideEndpoint hsize]
      by_cases hx : x = e <;> simp [hx, howner]

/-- Nothing is decided at an untouched instance. -/
theorem HasCounts.isOpen_of_isUntouched {w : PartialWiring} {p : WiringProblem}
    (h : w.HasCounts p) (hp : p.IsProper) {i e : Nat} (hi : w.isUntouched i)
    (he : e < p.endpointCount) (howner : p.ownerOf e = i) : w.isOpen e := by
  have hzero := beq_iff_eq.1 hi
  rw [h.decidedAt_eq i (howner ▸ hp.ownerOf_lt e he), List.countP_eq_zero] at hzero
  simpa [howner] using hzero e (List.mem_range.2 he)


/-! ### What undoing relies on -/

theorem isOpen_ofProblem (p : WiringProblem) (e : Nat) : (ofProblem p).isOpen e := by
  simp only [ofProblem, start, isOpen, Array.getD_eq_getD_getElem?, Array.getElem?_replicate]
  split <;> rfl

theorem partnerOf_ofProblem (p : WiringProblem) (e : Nat) : (ofProblem p).partnerOf e = none := by
  simp only [ofProblem, start, partnerOf, Array.getD_eq_getD_getElem?, Array.getElem?_replicate]
  split <;> rfl

/-- The fields are as long as the problem says, the components are a partition, and open endpoints
have no partner. -/
structure IsTidy (w : PartialWiring) (p : WiringProblem) : Prop where
  size_decided : w.decided.size = p.endpointCount
  size_partners : w.partners.size = p.endpointCount
  length_components : w.components.length = p.instanceCount
  isPartition : w.components.IsPartition
  partnerOf_isOpen : ∀ e, w.isOpen e → w.partnerOf e = none

/-- The instance of an endpoint is one of the elements of the components. -/
theorem IsTidy.ownerOf_lt {w : PartialWiring} {p : WiringProblem} (hw : w.IsTidy p)
    (hp : p.IsProper) {e : Nat} (he : e < p.endpointCount) : p.ownerOf e < w.components.length := by
  rw [hw.length_components]
  exact hp.ownerOf_lt e he

section Tidy

variable {w : PartialWiring} {p : WiringProblem} (hw : w.IsTidy p) {e f : Nat}
  (he : e < p.endpointCount) (hf : f < p.endpointCount)
include hw he hf

theorem IsTidy.partnerOf_connect (x : Nat) :
    (w.after p ⟨e, some f⟩).partnerOf x =
      if x = f then some e else if x = e then some f else w.partnerOf x := by
  have hsize := hw.size_partners
  show Array.getD ((w.partners.setIfInBounds e (some f)).setIfInBounds f (some e)) x none = _
  rw [getD_setIfInBounds, getD_setIfInBounds, Array.size_setIfInBounds, hsize]
  by_cases hxf : x = f
  · rw [if_pos ⟨hxf.symm, hxf ▸ hf⟩, if_pos hxf]
  · rw [if_neg (fun h => hxf h.1.symm), if_neg hxf]
    by_cases hxe : x = e
    · rw [if_pos ⟨hxe.symm, hxe ▸ he⟩, if_pos hxe]
    · rw [if_neg (fun h => hxe h.1.symm), if_neg hxe]
      rfl

theorem IsTidy.isOpen_connect (x : Nat) :
    (w.after p ⟨e, some f⟩).isOpen x = ((w.isOpen x && x != e) && x != f) := by
  have hsize : e < w.decided.size := hw.size_decided.symm ▸ he
  show ((w.decideEndpoint e (p.ownerOf e)).decideEndpoint f (p.ownerOf f)).isOpen x = _
  rw [isOpen_decideEndpoint, isOpen_decideEndpoint hsize]
  rw [decideEndpoint, Array.size_setIfInBounds, hw.size_decided]
  exact hf

end Tidy

theorem isTidy_ofProblem (p : WiringProblem) : (ofProblem p).IsTidy p where
  size_decided := by simp [ofProblem, start]
  size_partners := by simp [ofProblem, start]
  length_components := DisjointSet.length_singletons _
  isPartition := DisjointSet.isPartition_singletons _
  partnerOf_isOpen e _ := partnerOf_ofProblem p e

/-- A choice that can be taken back keeps what undoing relies on. -/
theorem IsTidy.after {w : PartialWiring} {p : WiringProblem} (hw : w.IsTidy p) (hp : p.IsProper)
    {c : Choice} (hc : w.Permits p c) : (w.after p c).IsTidy p := by
  obtain ⟨e, _ | f⟩ := c
  · refine ⟨?_, hw.size_partners, hw.length_components, hw.isPartition, fun x hx => ?_⟩
    · simpa [PartialWiring.after, PartialWiring.decideEndpoint] using hw.size_decided
    · have hx : (w.decideEndpoint e (p.ownerOf e)).isOpen x := hx
      rw [isOpen_decideEndpoint (hw.size_decided.symm ▸ hc.endpoint_lt), Bool.and_eq_true] at hx
      exact hw.partnerOf_isOpen x hx.1
  · obtain ⟨hf, -, -⟩ := hc.partner f rfl
    have hi := hw.ownerOf_lt hp hc.endpoint_lt
    have hj := hw.ownerOf_lt hp hf
    refine ⟨?_, ?_, ?_, ?_, fun x hx => ?_⟩
    · simpa [PartialWiring.after, connect, PartialWiring.decideEndpoint] using hw.size_decided
    · simpa [PartialWiring.after, connect, PartialWiring.decideEndpoint] using hw.size_partners
    · exact (DisjointSet.length_union hw.isPartition hi hj).trans hw.length_components
    · exact DisjointSet.isPartition_union hw.isPartition hi hj
    · rw [hw.isOpen_connect hc.endpoint_lt hf, Bool.and_eq_true, Bool.and_eq_true, bne_iff_ne,
        bne_iff_ne] at hx
      rw [hw.partnerOf_connect hc.endpoint_lt hf, if_neg hx.2, if_neg hx.1.2]
      exact hw.partnerOf_isOpen x hx.1.1

/-! ### The invariant -/

/-- The lower endpoint of a wire. -/
def isLower (w : PartialWiring) (e : Nat) : Bool := (w.partnerOf e).any (e < ·)

/-- The fields of a partial wiring agree with each other and with the problem. -/
structure IsSound (w : PartialWiring) (p : WiringProblem) : Prop extends HasCounts w p where
  size_partners : w.partners.size = p.endpointCount
  length_components : w.components.length = p.instanceCount
  isPartition : w.components.IsPartition
  partnerOf_isOpen : ∀ e, w.isOpen e → w.partnerOf e = none
  partnerOf_comm : ∀ e f, w.partnerOf e = some f → w.partnerOf f = some e
  partnerOf_fits : ∀ e f, w.partnerOf e = some f → f ∈ p.candidates e
  represents : w.components.Represents (w.Linked p)
  connectionCount_add : w.connectionCount + w.componentCount = p.instanceCount
  countP_isLower : (List.range p.endpointCount).countP w.isLower = w.connectionCount

theorem IsSound.isTidy {w : PartialWiring} {p : WiringProblem} (hw : w.IsSound p) : w.IsTidy p :=
  ⟨hw.size_decided, hw.size_partners, hw.length_components, hw.isPartition, hw.partnerOf_isOpen⟩

theorem isSound_ofProblem (p : WiringProblem) : (ofProblem p).IsSound p where
  size_decided := (isTidy_ofProblem p).size_decided
  size_decidedAt := by simp [ofProblem, start]
  decidedCount_eq := by simp [isOpen_ofProblem]; rfl
  decidedAt_eq i hi := by
    simp only [isOpen_ofProblem, Bool.not_true, Bool.false_and, List.countP_false]
    simp [ofProblem, start, hi]
  size_partners := (isTidy_ofProblem p).size_partners
  length_components := (isTidy_ofProblem p).length_components
  isPartition := (isTidy_ofProblem p).isPartition
  partnerOf_isOpen := (isTidy_ofProblem p).partnerOf_isOpen
  partnerOf_comm e f h := by simp [partnerOf_ofProblem] at h
  partnerOf_fits e f h := by simp [partnerOf_ofProblem] at h
  represents := (DisjointSet.represents_singletons _).congr (fun _ _ h => h.elim) fun i j h => by
    obtain ⟨e, f, he, -⟩ := h
    simp [partnerOf_ofProblem] at he
  connectionCount_add := Nat.zero_add _
  countP_isLower := List.countP_eq_zero.2 fun e _ => by simp [isLower, partnerOf_ofProblem]

/-! ### Choices -/

section Connect

variable {w : PartialWiring} {p : WiringProblem} {e f : Nat}

theorem ne_of_mem_openCandidates (hf : f ∈ w.openCandidates p e) : e ≠ f := by
  rintro rfl
  exact (mem_openCandidates.1 hf).2.2 rfl

theorem lt_of_mem_openCandidates (hp : p.IsProper) (hf : f ∈ w.openCandidates p e) :
    f < p.endpointCount :=
  ((hp.mem_candidates e f).1 (mem_openCandidates.1 hf).1).2.1

variable (hw : w.IsSound p) (hp : p.IsProper) (he : e < p.endpointCount) (hopen : w.isOpen e)
  (hf : f ∈ w.openCandidates p e)
include hw hp he hf

theorem partnerOf_connect (x : Nat) :
    (w.after p ⟨e, some f⟩).partnerOf x =
      if x = f then some e else if x = e then some f else w.partnerOf x :=
  hw.isTidy.partnerOf_connect he (lt_of_mem_openCandidates hp hf) x

theorem isOpen_connect (x : Nat) :
    (w.after p ⟨e, some f⟩).isOpen x = ((w.isOpen x && x != e) && x != f) :=
  hw.isTidy.isOpen_connect he (lt_of_mem_openCandidates hp hf) x

/-- A wire merges the components of its two owners, and no others. -/
theorem componentOf_connect_eq_iff (i j : Nat) :
    (w.after p ⟨e, some f⟩).componentOf i = (w.after p ⟨e, some f⟩).componentOf j ↔
      w.componentOf i = w.componentOf j ∨
        (w.componentOf i = w.componentOf (p.ownerOf e) ∧
          w.componentOf j = w.componentOf (p.ownerOf f)) ∨
        (w.componentOf i = w.componentOf (p.ownerOf f) ∧
          w.componentOf j = w.componentOf (p.ownerOf e)) :=
  DisjointSet.find_union_eq_iff hw.isPartition (hw.isTidy.ownerOf_lt hp he)
    (hw.isTidy.ownerOf_lt hp (lt_of_mem_openCandidates hp hf)) i j

include hopen

theorem hasCounts_connect : (w.after p ⟨e, some f⟩).HasCounts p := by
  have hfopen : (w.decideEndpoint e (p.ownerOf e)).isOpen f := by
    rw [isOpen_decideEndpoint (hw.size_decided.symm ▸ he), (mem_openCandidates.1 hf).2.1,
      Bool.true_and, bne_iff_ne]
    exact (ne_of_mem_openCandidates hf).symm
  have h := (hw.toHasCounts.decideEndpoint he hopen).decideEndpoint
    (lt_of_mem_openCandidates hp hf) hfopen
  exact ⟨h.size_decided, h.size_decidedAt, h.decidedCount_eq, h.decidedAt_eq⟩

theorem linked_connect (i j : Nat) : (w.after p ⟨e, some f⟩).Linked p i j ↔
    w.Linked p i j ∨ (i = p.ownerOf e ∧ j = p.ownerOf f) ∨
      (i = p.ownerOf f ∧ j = p.ownerOf e) := by
  have hpartner := partnerOf_connect hw hp he hf
  have hef := ne_of_mem_openCandidates hf
  have he' := hw.partnerOf_isOpen e hopen
  have hf' := hw.partnerOf_isOpen f (mem_openCandidates.1 hf).2.1
  constructor
  · rintro ⟨x, y, hxy, rfl, rfl⟩
    rw [hpartner] at hxy
    split at hxy
    · rename_i hx
      cases hxy
      exact .inr (.inr ⟨hx ▸ rfl, rfl⟩)
    · split at hxy
      · rename_i hx
        cases hxy
        exact .inr (.inl ⟨hx ▸ rfl, rfl⟩)
      · exact .inl ⟨x, y, hxy, rfl, rfl⟩
  · rintro (⟨x, y, hxy, rfl, rfl⟩ | ⟨rfl, rfl⟩ | ⟨rfl, rfl⟩)
    · refine ⟨x, y, ?_, rfl, rfl⟩
      have hxf : x ≠ f := by
        rintro rfl
        simp [hf'] at hxy
      have hxe : x ≠ e := by
        rintro rfl
        simp [he'] at hxy
      rw [hpartner, if_neg hxf, if_neg hxe, hxy]
    · exact ⟨e, f, by rw [hpartner, if_neg hef, if_pos rfl], rfl, rfl⟩
    · exact ⟨f, e, by rw [hpartner, if_pos rfl], rfl, rfl⟩

theorem countP_isLower_connect : (List.range p.endpointCount).countP (w.after p ⟨e, some f⟩).isLower
    = (List.range p.endpointCount).countP w.isLower + 1 := by
  have hef := ne_of_mem_openCandidates hf
  have he' := hw.partnerOf_isOpen e hopen
  have hf' := hw.partnerOf_isOpen f (mem_openCandidates.1 hf).2.1
  have hmin : min e f < p.endpointCount := lt_of_le_of_lt (Nat.min_le_left e f) he
  rw [← countP_range_eq hmin]
  refine countP_or (fun x _ => ?_) fun x _ hx => ?_
  · rw [isLower, isLower, partnerOf_connect hw hp he hf]
    by_cases hxf : x = f
    · subst hxf
      by_cases hlt : x < e
      · simp [hlt, Nat.min_eq_right hlt.le]
      · simp [hlt, hf', Nat.min_eq_left (Nat.le_of_not_lt hlt), hef.symm]
    · rw [if_neg hxf]
      by_cases hxe : x = e
      · subst hxe
        by_cases hlt : x < f
        · simp [hlt, Nat.min_eq_left hlt.le]
        · simp [hlt, he', Nat.min_eq_right (Nat.le_of_not_lt hlt), hef]
      · rw [if_neg hxe]
        have hne : x ≠ min e f := by
          rcases min_choice e f with h | h <;> rw [h]
          · exact hxe
          · exact hxf
        rw [beq_false_of_ne hne, Bool.or_false]
  · rw [beq_iff_eq.1 hx.2, isLower] at hx
    rcases min_choice e f with h | h <;> simp [h, he', hf'] at hx

theorem isSound_connect : (w.after p ⟨e, some f⟩).IsSound p := by
  have hpartner := partnerOf_connect hw hp he hf
  have hmem := mem_openCandidates.1 hf
  have hf' := lt_of_mem_openCandidates hp hf
  have hi := hw.isTidy.ownerOf_lt hp he
  have hj := hw.isTidy.ownerOf_lt hp hf'
  have hne : w.components.find (p.ownerOf e) ≠ w.components.find (p.ownerOf f) := hmem.2.2.symm
  have hallows : w.Allows p ⟨e, some f⟩ := ⟨he, hopen, fun _ h => Option.some.inj h ▸ hf⟩
  have htidy := hw.isTidy.after hp (hallows.permits hp)
  refine ⟨hasCounts_connect hw hp he hopen hf, htidy.size_partners, htidy.length_components,
    htidy.isPartition, htidy.partnerOf_isOpen, ?_, ?_, ?_, ?_, ?_⟩
  · intro x y hxy
    have he' := hw.partnerOf_isOpen e hopen
    have hfnone := hw.partnerOf_isOpen f hmem.2.1
    have hef := ne_of_mem_openCandidates hf
    rw [hpartner] at hxy ⊢
    split at hxy
    · rename_i hx
      cases hxy
      rw [if_neg hef, if_pos rfl, hx]
    · split at hxy
      · rename_i hx
        cases hxy
        rw [if_pos rfl, hx]
      · have hyx := hw.partnerOf_comm x y hxy
        have hyf : y ≠ f := by
          rintro rfl
          simp [hfnone] at hyx
        have hye : y ≠ e := by
          rintro rfl
          simp [he'] at hyx
        rw [if_neg hyf, if_neg hye, hyx]
  · intro x y hxy
    rw [hpartner] at hxy
    split at hxy
    · rename_i hx
      cases hxy
      rw [hx]
      exact hp.mem_candidates_swap.1 hmem.1
    · split at hxy
      · rename_i hx
        cases hxy
        rw [hx]
        exact hmem.1
      · exact hw.partnerOf_fits x y hxy
  · refine (hw.represents.union hw.isPartition hi hj).congr (fun i j hij => ?_) fun i j hij => ?_
    · rcases hij with hij | hij
      · exact .rel _ _ ((linked_connect hw hp he hopen hf i j).2 (.inl hij))
      · exact .rel _ _ ((linked_connect hw hp he hopen hf i j).2 (.inr (.inl hij)))
    · rcases (linked_connect hw hp he hopen hf i j).1 hij with hij | hij | ⟨hij, hij'⟩
      · exact .rel _ _ (.inl hij)
      · exact .rel _ _ (.inr hij)
      · exact (EqvGen.rel _ _ (.inr ⟨hij', hij⟩)).symm
  · have htwo := DisjointSet.two_le_components hw.isPartition hi hj hne
    have hadd := hw.connectionCount_add
    have hcomponents : (w.after p ⟨e, some f⟩).componentCount = w.componentCount - 1 :=
      (DisjointSet.components_union hw.isPartition hi hj).trans (if_neg hne)
    have hcount : (w.after p ⟨e, some f⟩).connectionCount = w.connectionCount + 1 := rfl
    rw [hcount, hcomponents]
    rw [componentCount] at hadd ⊢
    omega
  · rw [countP_isLower_connect hw hp he hopen hf, hw.countP_isLower]
    rfl

end Connect

theorem IsSound.decideEndpoint {w : PartialWiring} {p : WiringProblem} (hw : w.IsSound p) {e : Nat}
    (he : e < p.endpointCount) (hopen : w.isOpen e) :
    (w.decideEndpoint e (p.ownerOf e)).IsSound p where
  toHasCounts := hw.toHasCounts.decideEndpoint he hopen
  size_partners := hw.size_partners
  length_components := hw.length_components
  isPartition := hw.isPartition
  partnerOf_isOpen x hx := by
    rw [isOpen_decideEndpoint (hw.size_decided.symm ▸ he), Bool.and_eq_true] at hx
    exact hw.partnerOf_isOpen x hx.1
  partnerOf_comm := hw.partnerOf_comm
  partnerOf_fits := hw.partnerOf_fits
  represents := hw.represents
  connectionCount_add := hw.connectionCount_add
  countP_isLower := hw.countP_isLower

/-- A choice that a search may make keeps a partial wiring sound. -/
theorem IsSound.after {w : PartialWiring} {p : WiringProblem} (hw : w.IsSound p) (hp : p.IsProper)
    {c : Choice} (hc : w.Allows p c) : (w.after p c).IsSound p := by
  obtain ⟨e, _ | f⟩ := c
  · exact hw.decideEndpoint hc.endpoint_lt hc.isOpen
  · exact isSound_connect hw hp hc.endpoint_lt hc.isOpen (hc.partner_mem f rfl)

/-! ### Undoing -/

/-- Opening an endpoint again undoes deciding it. -/
theorem reopen_decideEndpoint {w : PartialWiring} {e : Nat} (he : e < w.decided.size)
    (hopen : w.isOpen e) (i : Nat) : (w.decideEndpoint e i).reopen e i = w := by
  have hdecided : (w.decided.setIfInBounds e true).setIfInBounds e false = w.decided := by
    refine Array.ext_getElem? fun x => ?_
    rw [isOpen, Bool.not_eq_true'] at hopen
    simp only [Array.getElem?_setIfInBounds, Array.size_setIfInBounds]
    by_cases hx : e = x
    · subst hx
      rw [if_pos rfl, if_pos he, Array.getElem?_eq_getElem he]
      simpa [Array.getD, he] using hopen.symm
    · rw [if_neg hx, if_neg hx]
  have hdecidedAt : (w.decidedAt.modify i (· + 1)).modify i (· - 1) = w.decidedAt := by
    refine Array.ext_getElem? fun x => ?_
    simp only [Array.getElem?_modify]
    by_cases hx : i = x <;> simp [hx, Function.comp_def]
  obtain ⟨partners, decided, decidedAt, components, decidedCount, connectionCount⟩ := w
  simp only [PartialWiring.decideEndpoint, reopen] at hdecided hdecidedAt ⊢
  rw [hdecided, hdecidedAt, Nat.add_sub_cancel]

/-- Taking a wire back undoes connecting two open endpoints, whether or not the wire merged two
components. -/
theorem disconnect_connect {w : PartialWiring} {e f i j : Nat} (hpart : w.components.IsPartition)
    (he : e < w.decided.size) (hf : f < w.decided.size) (hsize : w.partners.size = w.decided.size)
    (hi : i < w.components.length) (hj : j < w.components.length) (hef : e ≠ f)
    (heo : w.isOpen e) (hfo : w.isOpen f) (hep : w.partnerOf e = none)
    (hfp : w.partnerOf f = none) :
    (w.connect e i f j).2.disconnect e i f j (w.connect e i f j).1 = w := by
  have hopened : (((w.decideEndpoint e i).decideEndpoint f j).reopen f j).reopen e i = w := by
    rw [reopen_decideEndpoint, reopen_decideEndpoint he heo]
    · rwa [PartialWiring.decideEndpoint, Array.size_setIfInBounds]
    · rw [isOpen_decideEndpoint he, hfo, Bool.true_and, bne_iff_ne]
      exact hef.symm
  have hcomponents : (if (w.components.union i j).1 then (w.components.union i j).2.undoLast.2
      else (w.components.union i j).2) = w.components := by
    rw [DisjointSet.fst_union hpart hi hj]
    by_cases hij : w.components.find i = w.components.find j
    · simp [DisjointSet.same, DisjointSet.union, hij]
    · rw [DisjointSet.undoLast_union hpart hi hj hij]
      simp [DisjointSet.same, hij]
  have hpartners : ((((w.partners.setIfInBounds e (some f)).setIfInBounds f (some e)).setIfInBounds
      f none).setIfInBounds e none) = w.partners := by
    refine Array.ext_getElem? fun x => ?_
    simp only [Array.getElem?_setIfInBounds, Array.size_setIfInBounds]
    rw [partnerOf, Array.getD_eq_getD_getElem?] at hep hfp
    rw [← hsize] at he hf
    by_cases hxe : e = x
    · subst hxe
      rw [if_pos rfl, if_pos he, Array.getElem?_eq_getElem he]
      simpa [Array.getElem?_eq_getElem he] using hep.symm
    · rw [if_neg hxe, if_neg hxe]
      by_cases hxf : f = x
      · subst hxf
        rw [if_pos rfl, if_pos hf, Array.getElem?_eq_getElem hf]
        simpa [Array.getElem?_eq_getElem hf] using hfp.symm
      · rw [if_neg hxf, if_neg hxf]
  have hdisconnect : (w.connect e i f j).2.disconnect e i f j (w.connect e i f j).1 =
      { (((w.decideEndpoint e i).decideEndpoint f j).reopen f j).reopen e i with
        partners := ((w.partners.setIfInBounds e (some f)).setIfInBounds f (some e)).setIfInBounds
          f none |>.setIfInBounds e none
        components := if (w.components.union i j).1 then (w.components.union i j).2.undoLast.2
          else (w.components.union i j).2
        connectionCount := w.connectionCount + 1 - 1 } := rfl
  rw [hdisconnect, hopened, hpartners, hcomponents, Nat.add_sub_cancel]

/-- The trail entry of a choice. -/
def entryOf (w : PartialWiring) (p : WiringProblem) (c : Choice) : TrailEntry :=
  match c.partner with
  | some f => .connected c.endpoint (p.ownerOf c.endpoint) f (p.ownerOf f)
    (w.connect c.endpoint (p.ownerOf c.endpoint) f (p.ownerOf f)).1
  | none => .unconnected c.endpoint (p.ownerOf c.endpoint)

theorem apply_eq (t : Trail) (p : WiringProblem) (w : PartialWiring) (c : Choice) :
    t.apply p w c = ({ t with entries := w.entryOf p c :: t.entries }, w.after p c) := by
  obtain ⟨e, _ | f⟩ := c <;> rfl

/-- Undoing a choice gives the partial wiring before it back. -/
theorem IsTidy.undo_entryOf {w : PartialWiring} {p : WiringProblem} (hw : w.IsTidy p)
    (hp : p.IsProper) {c : Choice} (hc : w.Permits p c) :
    (w.entryOf p c).undo (w.after p c) = w := by
  have he : c.endpoint < w.decided.size := hw.size_decided.symm ▸ hc.endpoint_lt
  obtain ⟨e, _ | f⟩ := c
  · exact reopen_decideEndpoint he hc.isOpen _
  · obtain ⟨hf, hfopen, howner⟩ := hc.partner f rfl
    have hef : e ≠ f := fun h => howner (h ▸ rfl)
    exact disconnect_connect hw.isPartition he (hw.size_decided.symm ▸ hf)
      (hw.size_partners.trans hw.size_decided.symm)
      (hw.ownerOf_lt hp hc.endpoint_lt) (hw.ownerOf_lt hp hf) hef hc.isOpen hfopen
      (hw.partnerOf_isOpen e hc.isOpen) (hw.partnerOf_isOpen f hfopen)

end PartialWiring
end Muster
