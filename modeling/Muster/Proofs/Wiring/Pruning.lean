import Muster.Proofs.Wiring.Run

/-!
Pruning and branching fit together. A partial wiring is pruned only if no further wires make it a
connected one: the wires that would are a completion, and those are never pruned. One that is kept
although something is still to be linked has endpoints that can still be wired, so a brancher has an
endpoint to offer, to be left unconnected or wired to one of some partners in other components.

Main statements: `completes_of_isConnectedWiring`, `exists_choicesAt`, `propagate_of_passes`.
-/

namespace Muster

open Relation (EqvGen)

namespace PartialWiring

variable {w : PartialWiring} {p : WiringProblem}

/-! ### What is pruned -/

/-- Wires at open endpoints that make a connected wiring together with those that are there complete
the partial wiring. -/
theorem completes_of_isConnectedWiring (hw : w.IsSound p) {rest : List (Nat × Nat)}
    (hopen : ∀ x ∈ endsOf rest, w.isOpen x) (h : p.IsConnectedWiring (w.connections ++ rest)) :
    w.Completes p rest where
  fits q hq := h.fits q (List.mem_append_right _ hq)
  isOpen := hopen
  disjoint := h.disjoint.sublist (endsOf_sublist (List.sublist_append_right _ _))
  connected i hi j hj := by
    refine eqvGen_map (g := id) (fun a b hab => .rel _ _ ?_) (h.connected i hi j hj)
    obtain ⟨q, hq, rfl, rfl⟩ := hab
    rcases List.mem_append.1 hq with hq | hq
    · have hlinked : w.Linked p (p.ownerOf q.1) (p.ownerOf q.2) :=
        ⟨q.1, q.2, (mem_connections.1 hq).1, rfl, rfl⟩
      exact .inl ((hw.represents _ _).2 (.rel _ _ hlinked))
    · exact .inr ⟨q, hq, rfl, rfl⟩

/-- What is pruned is not connected yet. -/
theorem one_lt_componentCount (h : w.pruneReason p ≠ none) : 1 < w.componentCount := by
  by_contra hle
  exact h (by rw [pruneReason, if_pos (Nat.le_of_not_lt hle)])

/-- What is pruned cannot be made a connected wiring. -/
theorem not_isConnectedWiring_of_pruneReason (hp : p.IsProper) (hw : w.IsSound p)
    (h : w.pruneReason p ≠ none) {rest : List (Nat × Nat)}
    (hopen : ∀ x ∈ endsOf rest, w.isOpen x) : ¬ p.IsConnectedWiring (w.connections ++ rest) := by
  intro hconnected
  have hcompletes := completes_of_isConnectedWiring hw hopen hconnected
  exact h (pruneReason_eq_none hp hcompletes hw (one_lt_componentCount h))

/-! ### What is kept -/

/-- Something can still be wired where something is still to be linked. -/
theorem branchable_ne_nil (h : w.pruneReason p = none) (hcomponents : 1 < w.componentCount) :
    w.branchable p ≠ [] := by
  intro hnil
  rw [pruneReason, if_neg (Nat.not_le_of_lt hcomponents), hnil] at h
  simp only [List.length_nil] at h
  split_ifs at h with _ hfew
  omega

theorem representatives_ne_nil {e : Nat} (he : e ∈ w.branchable p) :
    w.representatives p e ≠ [] := by
  obtain ⟨f, hf⟩ := List.exists_mem_of_ne_nil _ (mem_branchable.1 he).2.2
  obtain ⟨f', hf', -⟩ := exists_mem_firstOfEach w p _ [] hf List.not_mem_nil
  exact List.ne_nil_of_mem hf'

/-- A brancher offers to leave one open endpoint unconnected or to wire it to some partners. -/
theorem exists_choicesAt (hp : p.IsProper) (h : w.branchable p ≠ []) (b : Brancher) :
    ∃ e < p.endpointCount, w.isOpen e ∧ ∃ partners : List Nat, partners ≠ [] ∧ partners.Nodup ∧
      (∀ f ∈ partners, f ∈ w.openCandidates p e) ∧
      (b.branch p w).1 = Brancher.choicesAt e partners := by
  rcases b.branch_cases p w with ⟨hnil, -⟩ | ⟨e, he, partners, hpartners, hchoices⟩
  · exact absurd hnil h
  · obtain ⟨hlt, hopen, -⟩ := mem_branchable.1 he
    have hsub : (w.representatives p e).Sublist (w.openCandidates p e) :=
      firstOfEach_sublist w p _ _
    have hnodup : (w.openCandidates p e).Nodup := (hp.nodup_candidates e).filter _
    refine ⟨e, hlt, hopen, partners, fun hnil => representatives_ne_nil he ?_,
      hpartners.nodup_iff.2 (hnodup.sublist hsub), fun f hf => ?_, hchoices⟩
    · rw [hnil] at hpartners
      exact hpartners.nil_eq.symm
    · exact hsub.subset (hpartners.mem_iff.1 hf)

end PartialWiring

namespace WiringSolver

open WiringSearch WiringDraft

/-- Whatever problem a solver searches, and wherever the search is: if the pass over the endpoints
finds a reason to prune then no wires between fitting open endpoints make the partial wiring a
connected one; if it finds none and something is still to be linked, any brancher offers an open
endpoint to be left unconnected or wired to one of some open endpoints that fit to it and lie in
other components. -/
theorem propagate_of_passes {p : WiringProblem} (hp : p.IsDrafted) {s : WiringSolver}
    (hs : s.IsReachable) (b : Brancher) {μ : Type} [WiringObserver μ] (monitor : μ)
    {t : WiringSearch μ} (ht : Passes (s.search p b monitor) t) :
    ((t.wiring.propagate p t.marks).1 ≠ none → ∀ rest : List (Nat × Nat),
      (∀ x ∈ endsOf rest, t.wiring.isOpen x) →
        ¬ p.IsConnectedWiring (t.wiring.connections ++ rest)) ∧
    ((t.wiring.propagate p t.marks).1 = none → t.wiring.isConnected = false → ∀ b' : Brancher,
      ∃ e < p.endpointCount, t.wiring.isOpen e ∧ ∃ partners : List Nat,
        partners ≠ [] ∧ partners.Nodup ∧ (∀ f ∈ partners, f ∈ t.wiring.openCandidates p e) ∧
        (b'.branch p t.wiring).1 = Brancher.choicesAt e partners) := by
  have hw : t.wiring.IsSound p := ht.isSound (hs.isFresh p b monitor) hp.isProper
  -- the marks of earlier wirings do not matter
  rw [PartialWiring.propagate_eq]
  constructor
  · intro hpruned rest hopen
    exact PartialWiring.not_isConnectedWiring_of_pruneReason hp.isProper hw hpruned hopen
  · intro hkept hconnected b'
    have hcomponents : 1 < t.wiring.componentCount := by
      simpa [PartialWiring.isConnected] using hconnected
    exact PartialWiring.exists_choicesAt hp.isProper
      (PartialWiring.branchable_ne_nil hkept hcomponents) b'

/-- A dock with a plug and two rovers with a socket each. -/
def crowdedDock : List DraftCall :=
  [.addInstance ⟨"Dock"⟩, .addInstance ⟨"Rover"⟩, .addInstance ⟨"Rover"⟩,
    .addEndpoint 0 ⟨"Plug"⟩, .addEndpoint 1 ⟨"Socket"⟩, .addEndpoint 2 ⟨"Socket"⟩,
    .addCompatible ⟨"Plug"⟩ ⟨"Socket"⟩]

/-- The draft of the calls. -/
def crowdedDraft : WiringDraft where
  models := #[⟨"Dock"⟩, ⟨"Rover"⟩]
  instanceModels := #[0, 1, 1]
  types := #[⟨"Plug"⟩, ⟨"Socket"⟩]
  ends := #[(0, 0), (1, 1), (2, 1)]
  compatible := [(0, 1)]

/-- Three endpoints are too few for two wires, so nothing links the dock with both rovers. If it has
a socket, and each rover a plug and a socket, the search goes on when the dock is wired to a rover,
and by merit it has as much to choose from as in the order of the endpoints. -/
theorem propagate_of_passes_rovers :
    (ofCalls crowdedDock = .ok crowdedDraft ∧
      ((PartialWiring.ofProblem crowdedDraft.build).propagate crowdedDraft.build #[]).1 =
        some .interfacesExhausted ∧
      ∀ rest, ¬ crowdedDraft.build.IsConnectedWiring rest) ∧
    ofCalls evenRovers = .ok evenDraft ∧ ∃ t, evenSearch.step = .running t ∧
      t.wiring.connections = [(0, 1)] ∧ t.wiring.isConnected = false ∧
      ∃ e < evenDraft.build.endpointCount, t.wiring.isOpen e ∧ ∃ partners : List Nat,
        partners ≠ [] ∧ ((Brancher.start 0 .merit).branch evenDraft.build t.wiring).1 =
          Brancher.choicesAt e partners := by
  constructor
  · have hdraft : ofCalls crowdedDock = .ok crowdedDraft := by decide +kernel
    have hpruned : ((PartialWiring.ofProblem crowdedDraft.build).propagate crowdedDraft.build
        #[]).1 = some .interfacesExhausted := by decide +kernel
    have hwireless : (PartialWiring.ofProblem crowdedDraft.build).connections = [] := by
      decide +kernel
    have hnot := (propagate_of_passes (.ofCalls hdraft) .new .lexicographic WiringMonitor.silent
      .start).1 fun hkept => nomatch hkept.symm.trans hpruned
    refine ⟨hdraft, hpruned, fun rest hrest => ?_⟩
    refine hnot rest (fun x _ => PartialWiring.isOpen_ofProblem _ x) ?_
    show crowdedDraft.build.IsConnectedWiring
      ((PartialWiring.ofProblem crowdedDraft.build).connections ++ rest)
    rwa [hwireless]
  · have hdraft : ofCalls evenRovers = .ok evenDraft := by decide +kernel
    have hbegin : (({} : WiringSolver).search evenDraft.build .lexicographic
        WiringMonitor.silent).begin.1 = true := by decide +kernel
    have hwired : (match evenSearch.step with
      | .running t => decide (t.wiring.connections = [(0, 1)] ∧ t.wiring.isConnected = false ∧
          (t.wiring.propagate evenDraft.build t.marks).1 = none)
      | .ended _ _ => false) = true := by decide +kernel
    refine ⟨hdraft, ?_⟩
    cases hstep : evenSearch.step with
    | ended reason t =>
      rw [hstep] at hwired
      exact absurd hwired Bool.false_ne_true
    | running t =>
      rw [hstep] at hwired
      obtain ⟨hconnections, hopen, hkept⟩ := of_decide_eq_true hwired
      obtain ⟨e, he, heopen, partners, hne, -, -, hchoices⟩ := (propagate_of_passes
        (.ofCalls hdraft) .new .lexicographic WiringMonitor.silent
        (.running (.step (.begun hbegin) hstep))).2 hkept hopen (.start 0 .merit)
      exact ⟨t, rfl, hconnections, hopen, e, he, heopen, partners, hne, hchoices⟩

end WiringSolver
end Muster
