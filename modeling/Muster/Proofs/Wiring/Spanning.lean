import Muster.Proofs.DisjointSet.Rollback
import Muster.Proofs.Wiring.Pruning

/-!
Wires that complete a partial wiring. To complete it is to make a connected wiring of it, with wires
at open endpoints, and that is the same before and after one of these wires is made. Of wires that
complete it some do so already, and these can be made one after the other such that each joins two
components: going through the wires in order, one that lies inside a component is left out, and the
others still link all instances.

Main statements: `isConnectedBy_iff`, `completes_cons_iff`, `Merges.isConnectedBy`,
`exists_merges`.
-/

namespace Muster

open Relation (EqvGen)

namespace WiringProblem

variable {p : WiringProblem} {wires : List (Nat × Nat)}

/-- Wires link all instances just if the merges of their owners do. -/
theorem isConnectedWiring_iff : p.IsConnectedWiring wires ↔
    (∀ q ∈ wires, q.2 ∈ p.candidates q.1) ∧ (endsOf wires).Nodup ∧
      ∀ i < p.instanceCount, ∀ j < p.instanceCount,
        Joined (wires.map fun q => (p.ownerOf q.1, p.ownerOf q.2)) i j := by
  have hrel : (fun a b => ∃ q ∈ wires, p.ownerOf q.1 = a ∧ p.ownerOf q.2 = b) =
      fun a b => (a, b) ∈ wires.map fun q => (p.ownerOf q.1, p.ownerOf q.2) := by
    funext a b
    simp
  unfold Joined
  rw [← hrel]
  exact ⟨fun h => ⟨h.fits, h.disjoint, h.connected⟩, fun h => ⟨h.1, h.2.1, h.2.2⟩⟩

instance : Decidable (p.IsConnectedWiring wires) := decidable_of_iff _ isConnectedWiring_iff.symm

end WiringProblem

namespace PartialWiring

/-- Wires at open endpoints that make a connected wiring together with those that are there. -/
structure IsConnectedBy (w : PartialWiring) (p : WiringProblem) (rest : List (Nat × Nat)) :
    Prop where
  isOpen : ∀ x ∈ endsOf rest, w.isOpen x
  isConnectedWiring : p.IsConnectedWiring (w.connections ++ rest)

instance (w : PartialWiring) (p : WiringProblem) (rest : List (Nat × Nat)) :
    Decidable (w.IsConnectedBy p rest) :=
  decidable_of_iff ((∀ x ∈ endsOf rest, w.isOpen x) ∧ p.IsConnectedWiring (w.connections ++ rest))
    ⟨fun h => ⟨h.1, h.2⟩, fun h => ⟨h.isOpen, h.isConnectedWiring⟩⟩

/-- Whether a partial wiring can be made a connected one. -/
def IsConnectable (w : PartialWiring) (p : WiringProblem) : Prop := ∃ rest, w.IsConnectedBy p rest

/-- Wires that are made one after the other. Each joins two open endpoints that fit, of instances
that are in different components when it is made. -/
inductive Merges (p : WiringProblem) :
    PartialWiring → List (Nat × Nat) → PartialWiring → Prop
  | done (w : PartialWiring) : Merges p w [] w
  | wire {w w' : PartialWiring} {q : Nat × Nat} {rest : List (Nat × Nat)} (hopen : w.isOpen q.1)
    (hopen' : w.isOpen q.2) (hfits : q.2 ∈ p.candidates q.1)
    (happart : w.sameComponent (p.ownerOf q.1) (p.ownerOf q.2) = false)
    (hrest : Merges p (w.after p ⟨q.1, some q.2⟩) rest w') : Merges p w (q :: rest) w'

variable {w w' : PartialWiring} {p : WiringProblem} {rest : List (Nat × Nat)}

/-! ### Completions make connected wirings -/

/-- An endpoint of a wire is decided. -/
theorem isOpen_eq_false_of_mem (hw : w.IsSound p) {x : Nat} (hx : x ∈ endsOf w.connections) :
    w.isOpen x = false := by
  obtain ⟨q, hq, hxq⟩ := mem_endsOf.1 hx
  have hpartner := (mem_connections.1 hq).1
  by_contra hopen
  have hnone := hw.partnerOf_isOpen x (Bool.eq_true_of_not_eq_false hopen)
  rcases hxq with rfl | rfl
  · simp [hnone] at hpartner
  · simp [hw.partnerOf_comm _ _ hpartner] at hnone

theorem Completes.isConnectedWiring (h : w.Completes p rest) (hw : w.IsSound p)
    (hp : p.IsProper) : p.IsConnectedWiring (w.connections ++ rest) where
  fits q hq := by
    rcases List.mem_append.1 hq with hq | hq
    · exact hw.partnerOf_fits _ _ (mem_connections.1 hq).1
    · exact h.fits q hq
  disjoint := by
    rw [endsOf, List.flatMap_append]
    refine List.Nodup.append (nodup_endsOf_connections hw) h.disjoint fun x hx hx' => ?_
    have hopen := h.isOpen x hx'
    rw [isOpen_eq_false_of_mem hw hx] at hopen
    exact Bool.false_ne_true hopen
  connected i hi j hj := by
    refine eqvGen_map (g := id) (fun a b hab => ?_) (h.connected i hi j hj)
    rcases hab with hab | ⟨q, hq, rfl, rfl⟩
    · have hlinked := (eqvGen_connections_iff hw hp).2 ((hw.represents a b).1 hab)
      refine eqvGen_map (g := id) (fun c d hcd => .rel _ _ ?_) hlinked
      obtain ⟨q, hq, howners⟩ := hcd
      exact ⟨q, List.mem_append_left _ hq, howners⟩
    · exact .rel _ _ ⟨q, List.mem_append_right _ hq, rfl, rfl⟩

theorem isConnectedBy_iff (hw : w.IsSound p) (hp : p.IsProper) :
    w.IsConnectedBy p rest ↔ w.Completes p rest :=
  ⟨fun h => completes_of_isConnectedWiring hw h.isOpen h.isConnectedWiring,
    fun h => ⟨h.isOpen, h.isConnectedWiring hw hp⟩⟩

theorem isConnectable_iff (hw : w.IsSound p) (hp : p.IsProper) :
    w.IsConnectable p ↔ w.IsCompletable p := exists_congr fun _ => isConnectedBy_iff hw hp

/-! ### Making one of the wires -/

/-- A pair completes a partial wiring together with the pairs that do so when it is connected. -/
theorem completes_cons_iff (hw : w.IsSound p) (hp : p.IsProper) {e f : Nat}
    (he : e < p.endpointCount) (hopen : w.isOpen e) (hf : f ∈ w.openCandidates p e) :
    w.Completes p ((e, f) :: rest) ↔ (w.after p ⟨e, some f⟩).Completes p rest := by
  constructor
  · intro h
    have hnext := h.connect hw he hp List.mem_cons_self (.inl ⟨rfl, rfl⟩) hf
    rwa [List.erase_cons_head] at hnext
  · intro h
    obtain ⟨hfits, hopen', -⟩ := mem_openCandidates.1 hf
    have hrest : ∀ x ∈ endsOf rest, (w.isOpen x ∧ x ≠ e) ∧ x ≠ f := by
      intro x hx
      have hx := h.isOpen x hx
      rwa [isOpen_connect hw hp he hf, Bool.and_eq_true, Bool.and_eq_true, bne_iff_ne,
        bne_iff_ne] at hx
    refine ⟨fun q hq => ?_, fun x hx => ?_, ?_, fun i hi' j hj' => ?_⟩
    · rcases List.mem_cons.1 hq with rfl | hq
      · exact hfits
      · exact h.fits q hq
    · rw [endsOf_cons, List.mem_cons, List.mem_cons] at hx
      rcases hx with rfl | rfl | hx
      · exact hopen
      · exact hopen'
      · exact (hrest x hx).1.1
    · rw [endsOf_cons, List.nodup_cons, List.nodup_cons, List.mem_cons, not_or]
      exact ⟨⟨ne_of_mem_openCandidates hf, fun hx => (hrest e hx).1.2 rfl⟩,
        fun hx => (hrest f hx).2 rfl, h.disjoint⟩
    · refine eqvGen_map (g := id) (fun a b hab => ?_) (h.connected i hi' j hj')
      have hpair : EqvGen (w.JoinedBy p ((e, f) :: rest)) (p.ownerOf e) (p.ownerOf f) :=
        .rel _ _ (.inr ⟨(e, f), List.mem_cons_self, rfl, rfl⟩)
      rcases hab with hab | ⟨q, hq, hab⟩
      · have hsame : ∀ {c d}, w.componentOf c = w.componentOf d →
            EqvGen (w.JoinedBy p ((e, f) :: rest)) c d := fun hcd => .rel _ _ (.inl hcd)
        -- the wire has merged the components of its two owners
        rcases (componentOf_connect_eq_iff hw hp he hf a b).1 hab with
          hab | ⟨ha, hb⟩ | ⟨ha, hb⟩
        · exact hsame hab
        · exact (hsame ha).trans _ _ _ (hpair.trans _ _ _ (hsame hb).symm)
        · exact (hsame ha).trans _ _ _ (hpair.symm.trans _ _ _ (hsame hb).symm)
      · exact .rel _ _ (.inr ⟨q, List.mem_cons_of_mem _ hq, hab⟩)

/-- A wire that a search may make. -/
theorem allows_of_mem (hp : p.IsProper) {e f : Nat} (hopen : w.isOpen e)
    (hf : f ∈ w.openCandidates p e) : w.Allows p ⟨e, some f⟩ where
  endpoint_lt := (hp.lt_of_mem_candidates (mem_openCandidates.1 hf).1).1
  isOpen := hopen
  partner_mem _ h := Option.some.inj h ▸ hf

/-! ### Wires that merge components -/

theorem mem_openCandidates_of_apart {q : Nat × Nat} (hopen : w.isOpen q.2)
    (hfits : q.2 ∈ p.candidates q.1)
    (happart : w.sameComponent (p.ownerOf q.1) (p.ownerOf q.2) = false) :
    q.2 ∈ w.openCandidates p q.1 :=
  mem_openCandidates.2 ⟨hfits, hopen, Ne.symm (beq_eq_false_iff_ne.1 happart)⟩

/-- Wires that merge components until all instances hang together make a connected wiring. -/
theorem Merges.isConnectedBy (h : w.Merges p rest w') (hw : w.IsSound p) (hp : p.IsProper)
    (hconnected : w'.isConnected) : w.IsConnectedBy p rest := by
  rw [isConnectedBy_iff hw hp]
  induction h with
  | done w =>
    have hone := (DisjointSet.components_le_one_iff hw.isPartition).1 (of_decide_eq_true hconnected)
    rw [hw.length_components] at hone
    exact ⟨nofun, nofun, .nil, fun i hi j hj => .rel _ _ (.inl (hone i hi j hj))⟩
  | wire hopen hopen' hfits happart _ ih =>
    have hf := mem_openCandidates_of_apart hopen' hfits happart
    have hallows := allows_of_mem hp hopen hf
    exact (completes_cons_iff hw hp hallows.endpoint_lt hopen hf).2
      (ih (hw.after hp hallows) hconnected)

/-- If no wires are missing then all instances hang together. -/
theorem Completes.isConnected (h : w.Completes p []) (hw : w.IsSound p) : w.isConnected := by
  refine decide_eq_true ((DisjointSet.components_le_one_iff hw.isPartition).2 fun i hi j hj => ?_)
  rw [hw.length_components] at hi hj
  refine (eqvGen_iff (P := fun x => w.componentOf x = w.componentOf j) (fun a b hab => ?_)
    (h.connected i hi j hj)).2 rfl
  rcases hab with hab | ⟨q, hq, -⟩
  · rw [hab]
  · exact absurd hq List.not_mem_nil

/-- Some of the wires that complete a partial wiring merge its components, one after the other. -/
theorem exists_merges (hp : p.IsProper) : ∀ {rest : List (Nat × Nat)} {w : PartialWiring},
    w.Completes p rest → w.IsSound p → ∃ tree w', tree.Sublist rest ∧ w.Merges p tree w' ∧
      w'.isConnected
  | [], w, h, hw => ⟨[], w, .slnil, .done w, h.isConnected hw⟩
  | q :: rest, w, h, hw => by
    by_cases hcross : w.crosses p q
    · have hopen := h.isOpen q.1 (mem_endsOf.2 ⟨q, List.mem_cons_self, .inl rfl⟩)
      have hopen' := h.isOpen q.2 (mem_endsOf.2 ⟨q, List.mem_cons_self, .inr rfl⟩)
      have hf := (mem_openCandidates_of_crosses hp h List.mem_cons_self hcross).1
      have hallows := allows_of_mem hp hopen hf
      obtain ⟨tree, w', hsub, hmerges, hconnected⟩ := exists_merges hp
        ((completes_cons_iff hw hp hallows.endpoint_lt hopen hf).1 h) (hw.after hp hallows)
      have happart : w.sameComponent (p.ownerOf q.1) (p.ownerOf q.2) = false :=
        beq_eq_false_iff_ne.2 (bne_iff_ne.1 hcross).symm
      exact ⟨q :: tree, w', hsub.cons_cons q,
        .wire hopen hopen' (h.fits q List.mem_cons_self) happart hmerges, hconnected⟩
    · have hrest : w.Completes p rest := by
        refine h.of_sublist (List.sublist_cons_self q rest) fun r hr hnot => ?_
        rw [(List.mem_cons.1 hr).resolve_right hnot]
        exact Bool.eq_false_of_not_eq_true hcross
      obtain ⟨tree, w', hsub, hmerges, hconnected⟩ := exists_merges hp hrest hw
      exact ⟨tree, w', hsub.cons q, hmerges, hconnected⟩

end PartialWiring
end Muster
