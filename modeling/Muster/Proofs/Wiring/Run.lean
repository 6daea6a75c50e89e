import Muster.Proofs.Wiring.Trail

/-!
The partial wirings that a search passes: at the start, after each step, on the way through a step
when a choice was just made, and at the end. They are all sound, and what that says of the fields
that a caller sees is put together in `IsConsistent`: partners are partners of each other, the
counters count, the components are those of the wires, and the graph of the wires agrees.

Main statements: `IsSound.isConsistent`, `Running.isState`, `Passes.isAt`, `Passes.isSound`,
`passes_run`, `isConsistent_of_passes`.
-/

namespace Muster

open Relation (EqvGen)

/-! ### What a caller sees -/

namespace PartialWiring

/-- What a partial wiring says of its endpoints, its wires and its components fits together, and to
the problem. -/
structure IsConsistent (w : PartialWiring) (p : WiringProblem) : Prop where
  endpointCount_eq : w.endpointCount = p.endpointCount
  instanceCount_eq : w.instanceCount = p.instanceCount
  partnerOf_comm : ∀ e f, w.partnerOf e = some f ↔ w.partnerOf f = some e
  partnerOf_fits : ∀ e f, w.partnerOf e = some f → e < p.endpointCount ∧ f < p.endpointCount ∧
    p.ownerOf f ≠ p.ownerOf e ∧ p.isCompatible (p.typeOf e) (p.typeOf f)
  partnerOf_isOpen : ∀ e, w.isOpen e → w.partnerOf e = none
  decidedCount_eq : w.decidedCount = (List.range p.endpointCount).countP fun e => !w.isOpen e
  decidedAt_eq : ∀ i < p.instanceCount, w.decidedAt[i]? =
    some ((List.range p.endpointCount).countP fun e => !w.isOpen e && p.ownerOf e == i)
  nodup_connections : w.connections.Nodup
  mem_connections : ∀ e f, (e, f) ∈ w.connections ↔ w.partnerOf e = some f ∧ e < f
  length_connections : w.connections.length = w.connectionCount
  sameComponent_iff : ∀ i < p.instanceCount, ∀ j < p.instanceCount,
    w.sameComponent i j ↔ EqvGen (w.Linked p) i j
  connectionCount_le : w.connectionCount ≤ w.instanceCount
  componentCount_eq : w.componentCount = w.instanceCount - w.connectionCount
  isConnected_eq : w.isConnected = (ConnectionGraph.ofWiring p w).isConnected

theorem IsSound.isConsistent {w : PartialWiring} {p : WiringProblem} (hw : w.IsSound p)
    (hp : p.IsProper) : w.IsConsistent p where
  endpointCount_eq := hw.size_partners
  instanceCount_eq := hw.size_decidedAt
  partnerOf_comm e f := ⟨hw.partnerOf_comm e f, hw.partnerOf_comm f e⟩
  partnerOf_fits e f h := (hp.mem_candidates e f).1 (hw.partnerOf_fits e f h)
  partnerOf_isOpen := hw.partnerOf_isOpen
  decidedCount_eq := hw.decidedCount_eq
  decidedAt_eq i hi := by
    have hsize : i < w.decidedAt.size := hw.size_decidedAt.symm ▸ hi
    rw [← hw.decidedAt_eq i hi, Array.getElem?_eq_getElem hsize]
    simp [hsize]
  nodup_connections := PartialWiring.nodup_connections w
  mem_connections _ _ := PartialWiring.mem_connections
  length_connections := PartialWiring.length_connections hw
  sameComponent_iff i _ j _ := by
    rw [sameComponent, DisjointSet.same, beq_iff_eq]
    exact hw.represents i j
  connectionCount_le := by
    have hadd := hw.connectionCount_add
    rw [instanceCount, hw.size_decidedAt]
    omega
  componentCount_eq := by
    have hadd := hw.connectionCount_add
    rw [instanceCount, hw.size_decidedAt]
    omega
  isConnected_eq := (ConnectionGraph.isConnected_ofWiring hw hp).symm

end PartialWiring

/-! ### The states of a run -/

namespace WiringSearch

variable {μ : Type} {p : WiringProblem} {s₀ s : WiringSearch μ}

variable [WiringObserver μ]

/-- The states between the steps of a search. -/
inductive Running (s₀ : WiringSearch μ) : WiringSearch μ → Prop
  | begun (h : s₀.begin.1 = true) : Running s₀ s₀.begin.2
  | step {s s' : WiringSearch μ} (h : Running s₀ s) (hstep : s.step = .running s') : Running s₀ s'

/-- The states that a search passes, with those in which a choice was just made. -/
inductive Passes (s₀ : WiringSearch μ) : WiringSearch μ → Prop
  | start : Passes s₀ s₀
  | begun : Passes s₀ s₀.begin.2
  | running {s : WiringSearch μ} (h : Running s₀ s) : Passes s₀ s
  | entered {s : WiringSearch μ} {monitor : μ} {c : Choice} {stack : ChoiceStack}
    (h : Running s₀ s) (hcommand : WiringObserver.command (s.tell (.step s.wiring)).monitor
      s.wiring s.statistics = (.proceed, monitor)) (htodo : s.stack.isExhausted = false)
    (hnext : s.stack.next = (some c, stack)) :
    Passes s₀ ((({ s.awaken monitor with stack } : WiringSearch μ).count .countDecision).enter c)
  | ended {s s' : WiringSearch μ} {reason : TerminationReason} (h : Running s₀ s)
    (hstep : s.step = .ended reason s') : Passes s₀ s'

/-- If there is nothing to search, looking at the wiring without wires moves nothing. -/
theorem unmoved_of_begin (s : WiringSearch μ) (h : s.begin.1 = false) :
    s.begin.2.wiring = s.wiring ∧ s.begin.2.trail = s.trail ∧ s.begin.2.stack = s.stack := by
  rw [begin_eq] at h ⊢
  split
  · exact ⟨rfl, rfl, rfl⟩
  · rename_i hconnected
    rw [if_neg hconnected] at h
    split
    · exact ⟨rfl, rfl, rfl⟩
    · rename_i hnone
      rw [hnone] at h
      exact nomatch h

/-- A step that ends the search leaves it at a level. -/
theorem IsState.isAt_of_ended {limit : Nat} {l : SearchLevel} {ls : List SearchLevel}
    {reason : TerminationReason} {s' : WiringSearch μ} (h : IsState p limit s l ls)
    (hp : p.IsProper) (hstep : s.step = .ended reason s') : ∃ l' ls', IsAt p limit s' l' ls' := by
  rw [step_eq] at hstep
  split at hstep
  · rename_i monitor _
    cases hstep
    exact ⟨l, ls, (h.awaken monitor).toIsAt⟩
  · rename_i monitor _
    split at hstep
    · split at hstep
      · cases hstep
        exact ⟨l, ls, (h.awaken monitor).toIsAt⟩
      · cases hstep
    · rename_i htodo
      split at hstep
      · cases hstep
        rw [h.stack_eq, isExhausted_stackOf, List.isEmpty_iff] at htodo
        obtain ⟨l', ls', hstate, -⟩ := (h.awaken monitor).tryNext hp htodo
        exact ⟨l', ls', hstate.toIsAt⟩
      · cases hstep

section Fresh

variable (hfresh : IsFresh p s₀) (hp : p.IsProper)
include hfresh hp

theorem Running.isState (h : Running s₀ s) :
    ∃ l ls, IsState p s₀.limit s l ls := by
  induction h with
  | begun hbegin =>
    rcases hfresh.begin hp with ⟨hfalse, -⟩ | ⟨-, -, l, -, hstate⟩
    · simp [hbegin] at hfalse
    · exact ⟨l, [], hstate⟩
  | step _ hstep ih =>
    obtain ⟨l, ls, hstate⟩ := ih
    rcases hstate.step hp with ⟨s'', l', ls', hrunning, hstate', -⟩ | ⟨reason, s'', hended, -⟩
    · cases hrunning.symm.trans hstep
      exact ⟨l', ls', hstate'⟩
    · exact nomatch hended.symm.trans hstep

/-- Whatever a search passes is its start, where no level is open yet, or is at a level. -/
theorem Passes.isAt (h : Passes s₀ s) :
    (s.wiring = .ofProblem p ∧ s.trail = {} ∧ s.stack = {}) ∨ ∃ l ls, IsAt p s₀.limit s l ls := by
  cases h with
  | start => exact .inl ⟨hfresh.wiring_eq, hfresh.trail_eq, hfresh.stack_eq⟩
  | begun =>
    rcases hfresh.begin hp with ⟨hbegin, -⟩ | ⟨-, -, l, -, hstate⟩
    · obtain ⟨hwiring, htrail, hstack⟩ := unmoved_of_begin s₀ hbegin
      exact .inl ⟨hwiring.trans hfresh.wiring_eq, htrail.trans hfresh.trail_eq,
        hstack.trans hfresh.stack_eq⟩
    · exact .inr ⟨l, [], hstate.toIsAt⟩
  | running h =>
    obtain ⟨l, ls, hstate⟩ := h.isState hfresh hp
    exact .inr ⟨l, ls, hstate.toIsAt⟩
  | @entered s monitor c stack h _ htodo hnext =>
    obtain ⟨l, ls, hstate⟩ := h.isState hfresh hp
    rw [hstate.stack_eq, isExhausted_stackOf, List.isEmpty_eq_false_iff] at htodo
    obtain ⟨c', cs, hcs⟩ := List.exists_cons_of_ne_nil htodo
    have hawake := hstate.awaken monitor
    obtain ⟨hnext', hc⟩ := hawake.toIsAt.next hcs
    have hsame : s.stack.next = (some c', stackOf ({ l with todo := cs } :: ls)) := hnext'
    cases hnext.symm.trans hsame
    have henter := (hawake.toIsAt.taken hcs).enter hc
    rw [hnext'] at henter
    exact .inr ⟨_, _, henter⟩
  | ended h hstep =>
    obtain ⟨l, ls, hstate⟩ := h.isState hfresh hp
    exact .inr (hstate.isAt_of_ended hp hstep)

/-- Whatever a search passes is a sound wiring of its problem. -/
theorem Passes.isSound (h : Passes s₀ s) : s.wiring.IsSound p := by
  rcases h.isAt hfresh hp with ⟨hwiring, -, -⟩ | ⟨l, ls, hat⟩
  · exact hwiring ▸ PartialWiring.isSound_ofProblem p
  · exact hat.wiring_eq ▸ hat.isSound hp

end Fresh

/-- A loop ends in a state that the search passes. -/
theorem passes_loop : ∀ (fuel : Nat) {s : WiringSearch μ}, Running s₀ s →
    Passes s₀ (loop fuel s).2
  | 0, _, h => .running h
  | fuel + 1, s, h => by
    rw [loop]
    cases hstep : s.step with
    | running s' => exact passes_loop fuel (h.step hstep)
    | ended reason s' => exact .ended h hstep

/-- What a run leaves behind is a state that the search passes, and the monitor is told. -/
theorem passes_run (s₀ : WiringSearch μ) : ∃ s, Passes s₀ s ∧ s₀.run.2 = s.tell .exit := by
  refine ⟨_, ?_, congrArg Prod.snd (run_eq s₀)⟩
  split
  · rename_i hbegin
    exact passes_loop _ (.begun hbegin)
  · exact .begun

end WiringSearch

namespace WiringSolver

open WiringSearch WiringDraft

/-- Whatever problem a solver searches, with whichever brancher and monitor, and wherever the search
is: what the partial wiring says fits together. -/
theorem isConsistent_of_passes {p : WiringProblem} (hp : p.IsDrafted) {s : WiringSolver}
    (hs : s.IsReachable) (b : Brancher) {μ : Type} [WiringObserver μ] (monitor : μ)
    {t : WiringSearch μ} (ht : Passes (s.search p b monitor) t) : t.wiring.IsConsistent p := by
  obtain ⟨htrail, hstack, -⟩ := hs.isClear
  have hfresh : IsFresh p (s.search p b monitor) := ⟨rfl, rfl, htrail, hstack, rfl, rfl⟩
  exact (ht.isSound hfresh hp.isProper).isConsistent hp.isProper

/-- A search that begins with the dock, before its first step. -/
def evenSearch : WiringSearch WiringMonitor :=
  (({} : WiringSolver).search evenDraft.build .lexicographic WiringMonitor.silent).begin.2

/-- The first choice wires the dock to a rover. -/
def evenDescent : WiringSearch WiringMonitor :=
  WiringSearch.enter (({ evenSearch.awaken (evenSearch.tell (.step evenSearch.wiring)).monitor with
    stack := evenSearch.stack.next.2 } : WiringSearch WiringMonitor).count .countDecision)
    ⟨0, some 1⟩

theorem isConsistent_of_passes_evenRovers : ofCalls evenRovers = .ok evenDraft ∧
    Passes (({} : WiringSolver).search evenDraft.build .lexicographic WiringMonitor.silent)
      evenDescent ∧
    evenDescent.wiring.connections = [(0, 1)] ∧
    evenDescent.wiring.IsConsistent evenDraft.build := by
  have hdraft : ofCalls evenRovers = .ok evenDraft := by decide +kernel
  have hbegin : (({} : WiringSolver).search evenDraft.build .lexicographic
      WiringMonitor.silent).begin.1 = true := by decide +kernel
  have hcommand : (WiringObserver.command (evenSearch.tell (.step evenSearch.wiring)).monitor
      evenSearch.wiring evenSearch.statistics).1 = .proceed := by decide +kernel
  have hnext : evenSearch.stack.next.1 = some ⟨0, some 1⟩ := by decide +kernel
  have hpasses : Passes (({} : WiringSolver).search evenDraft.build .lexicographic
      WiringMonitor.silent) evenDescent :=
    .entered (.begun hbegin) (Prod.ext hcommand rfl) (by decide +kernel) (Prod.ext hnext rfl)
  exact ⟨hdraft, hpasses, by decide +kernel,
    isConsistent_of_passes (.ofCalls hdraft) .new .lexicographic WiringMonitor.silent hpasses⟩

end WiringSolver
end Muster
