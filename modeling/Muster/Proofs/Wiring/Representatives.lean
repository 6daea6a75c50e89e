import Muster.Proofs.Wiring.Pool
import Muster.Proofs.Wiring.Spanning

/-!
One partner of each key is enough. Wherever the search of a pool is, to wire an open endpoint to one
of its open candidates leaves a wiring that can be made a connected one just if to wire it to the
representative of the same key does. Of the wires that make the wiring a connected one, some that
merge components do so without the others.

Main statements: `canWire_iff`, `losesNothing`, `losesNothing_of_passes`.
-/

namespace Muster

namespace PartialWiring

/-- It is enough to try one partner of each key, and wires that merge components. -/
structure LosesNothing (w : PartialWiring) (p : WiringProblem) : Prop where
  exists_representative : ∀ e, w.isOpen e → ∀ f ∈ w.openCandidates p e,
    ∃ f' ∈ w.representatives p e, w.partnerKey p f' = w.partnerKey p f ∧
      ((w.after p ⟨e, some f⟩).IsConnectable p ↔ (w.after p ⟨e, some f'⟩).IsConnectable p)
  exists_merges : ∀ rest, w.IsConnectedBy p rest → ∃ tree w', tree.Sublist rest ∧
    w.IsConnectedBy p tree ∧ w.Merges p tree w' ∧ w'.isConnected

section

variable {w : PartialWiring} {p : WiringProblem} (hw : w.IsSound p) (hp : p.IsProper)
include hw hp

/-- A completion wires `e` to `f` just if there is one when they are wired. -/
theorem canWire_iff {e f : Nat} (hopen : w.isOpen e) (hf : f ∈ w.openCandidates p e) :
    w.CanWire p e f ↔ (w.after p ⟨e, some f⟩).IsConnectable p := by
  have hallows := allows_of_mem hp hopen hf
  rw [isConnectable_iff (hw.after hp hallows) hp]
  constructor
  · rintro ⟨rest, h, q, hq, hjoins⟩
    exact ⟨rest.erase q, h.connect hw hallows.endpoint_lt hp hq hjoins hf⟩
  · rintro ⟨rest, h⟩
    exact ⟨(e, f) :: rest, (completes_cons_iff hw hp hallows.endpoint_lt hopen hf).2 h, (e, f),
      List.mem_cons_self, .inl ⟨rfl, rfl⟩⟩

theorem losesNothing (hu : p.IsUniform) : w.LosesNothing p where
  exists_representative e hopen f hf := by
    obtain ⟨f', hf', hkey⟩ := exists_mem_firstOfEach w p _ [] hf List.not_mem_nil
    have hopen' : f' ∈ w.openCandidates p e := (firstOfEach_sublist w p _ _).subset hf'
    refine ⟨f', hf', hkey, ?_⟩
    rw [← canWire_iff hw hp hopen hf, ← canWire_iff hw hp hopen hopen']
    exact ⟨fun h => h.of_key_eq hw hp hu hf hopen' hkey,
      fun h => h.of_key_eq hw hp hu hopen' hf hkey.symm⟩
  exists_merges rest hrest := by
    obtain ⟨tree, w', hsub, hmerges, hconnected⟩ :=
      exists_merges hp ((isConnectedBy_iff hw hp).1 hrest) hw
    exact ⟨tree, w', hsub, hmerges.isConnectedBy hw hp hconnected, hmerges, hconnected⟩

end

end PartialWiring

namespace WiringSolver

open WiringSearch

/-- Whatever pool is searched, and wherever the search is: every open candidate of an open endpoint
has a representative that can be wired in its place, and wires that complete the wiring have some
among them that complete it and each join two components when they are made. -/
theorem losesNothing_of_passes (o : Ontology) (pool : Pool) (base : Model) {s : WiringSolver}
    (hs : s.IsReachable) (b : Brancher) {μ : Type} [WiringObserver μ] (monitor : μ)
    {t : WiringSearch μ} (ht : Passes (s.search (.ofPool o pool base) b monitor) t) :
    t.wiring.LosesNothing (.ofPool o pool base) := by
  have hp : (WiringProblem.ofPool o pool base).IsProper :=
    (WiringProblem.names_draftOf o pool base).isProper_build
  exact PartialWiring.losesNothing (ht.isSound (hs.isFresh _ b monitor) hp) hp
    (WiringProblem.isUniform_draftOf o pool base)

/-- Docks have two sockets, rovers two plugs and a socket. -/
def convoyOntology : Ontology :=
  ((((((({} : CatalogDraft).subclass ⟨"Plug"⟩ ⟨"Interface"⟩).subclass ⟨"Socket"⟩
    ⟨"Interface"⟩).has ⟨"Dock"⟩ ⟨"Socket"⟩ 0 2).has ⟨"Rover"⟩ ⟨"Plug"⟩ 0 2).has ⟨"Rover"⟩
      ⟨"Socket"⟩ 0 1).compatible ⟨"Plug"⟩ ⟨"Socket"⟩).build.ontology

/-- A dock and three rovers. -/
def convoyPool : Pool := .ofPairs [(⟨"Dock"⟩, 1), (⟨"Rover"⟩, 3)]

/-- The problem of wiring them. -/
def convoy : WiringProblem := .ofPool convoyOntology convoyPool ⟨"Interface"⟩

/-- Their search before its first step. -/
def convoySearch : WiringSearch WiringMonitor :=
  (({} : WiringSolver).search convoy .lexicographic WiringMonitor.silent).begin.2

/-- The first step wires the dock to a rover. The other rovers are alike then, so for the second
socket of the dock only one of their plugs is tried. Of three wires that complete the wiring, the
one that wires the dock to the same rover again can be left out. -/
theorem losesNothing_of_passes_convoy : ∃ t, convoySearch.step = .running t ∧
    t.wiring.connections = [(0, 2)] ∧ t.wiring.representatives convoy 1 = [5] ∧
    (t.wiring.after convoy ⟨1, some 9⟩).IsConnectable convoy ∧
    ∃ tree w', tree.Sublist [(1, 3), (4, 5), (7, 8)] ∧ t.wiring.Merges convoy tree w' ∧
      w'.isConnected := by
  have hbegin : (({} : WiringSolver).search convoy .lexicographic
      WiringMonitor.silent).begin.1 = true := by decide +kernel
  have hwired : (match convoySearch.step with
    | .running t => decide (t.wiring.connections = [(0, 2)] ∧ t.wiring.isOpen 1 ∧
        9 ∈ t.wiring.openCandidates convoy 1 ∧ t.wiring.representatives convoy 1 = [5] ∧
        (t.wiring.after convoy ⟨1, some 5⟩).IsConnectedBy convoy [(4, 8)] ∧
        t.wiring.IsConnectedBy convoy [(1, 3), (4, 5), (7, 8)])
    | .ended _ _ => false) = true := by decide +kernel
  cases hstep : convoySearch.step with
  | ended reason t =>
    rw [hstep] at hwired
    exact absurd hwired Bool.false_ne_true
  | running t =>
    rw [hstep] at hwired
    obtain ⟨hconnections, hopen, hcandidate, honly, htried, hwires⟩ := of_decide_eq_true hwired
    have hpasses : Passes _ t := .running (.step (.begun hbegin) hstep)
    have hnothing : t.wiring.LosesNothing convoy := losesNothing_of_passes convoyOntology convoyPool
      ⟨"Interface"⟩ .new .lexicographic WiringMonitor.silent hpasses
    obtain ⟨f', hf', -, hiff⟩ := hnothing.exists_representative 1 hopen 9 hcandidate
    rw [honly, List.mem_singleton] at hf'
    subst hf'
    obtain ⟨tree, w', hsub, -, hmerges, hconnected⟩ := hnothing.exists_merges _ hwires
    exact ⟨t, rfl, hconnections, honly, hiff.2 ⟨_, htried⟩, tree, w', hsub, hmerges, hconnected⟩

end WiringSolver
end Muster
