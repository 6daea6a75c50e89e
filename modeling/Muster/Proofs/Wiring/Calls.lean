import Muster.Proofs.Wiring.Draft
import Muster.Proofs.Wiring.Search

/-!
Problems drafted call by call, and the graphs that are found for them: whatever was drafted and
however a search was stopped, a graph that a solver answers is a tree on the instances that were
added, with wires that the calls allow.

Main statements: `records_ofCalls`, `Records.isCompatible_iff`, `isTreeOf_of_solve`.
-/

namespace Muster

open Relation (EqvGen)

/-- A call that adds to a draft. -/
inductive DraftCall where
  | addInstance (m : Model)
  | addEndpoint (owner : Nat) (type : Model)
  | addCompatible (a b : Model)
deriving DecidableEq

namespace DraftCall

/-- The model of an instance that is added. -/
def instance? : DraftCall → Option Model
  | addInstance m => some m
  | _ => none

/-- The owner and the type of an endpoint that is added. -/
def endpoint? : DraftCall → Option (Nat × Model)
  | addEndpoint owner type => some (owner, type)
  | _ => none

/-- The types that are let fit together. -/
def pair? : DraftCall → Option (Model × Model)
  | addCompatible a b => some (a, b)
  | _ => none

/-- Adds to a draft. -/
def perform (d : WiringDraft) : DraftCall → Except MissingInstance WiringDraft
  | addInstance m => .ok (d.addInstance m)
  | addEndpoint owner type => d.addEndpoint owner type
  | addCompatible a b => .ok (d.addCompatible a b)

end DraftCall

namespace WiringDraft

/-- The draft that calls build, one after the other. -/
def ofCalls (calls : List DraftCall) : Except MissingInstance WiringDraft :=
  calls.foldlM DraftCall.perform {}

theorem filterMap_concat_none {α β : Type} {f : α → Option β} {x : α} (h : f x = none)
    (xs : List α) : (xs ++ [x]).filterMap f = xs.filterMap f := by
  rw [List.filterMap_append, List.filterMap_cons_none h, List.filterMap_nil, List.append_nil]

theorem filterMap_concat_some {α β : Type} {f : α → Option β} {x : α} {y : β} (h : f x = some y)
    (xs : List α) : (xs ++ [x]).filterMap f = xs.filterMap f ++ [y] := by
  rw [List.filterMap_append, List.filterMap_cons_some h, List.filterMap_nil]

/-- A draft says what the calls said. -/
structure Records (d : WiringDraft) (calls : List DraftCall) : Prop where
  names : d.Names (calls.filterMap DraftCall.instance?) (calls.filterMap DraftCall.endpoint?)
  compatible : List.Forall₂ (fun q c => d.types[q.1]? = some c.1 ∧ d.types[q.2]? = some c.2)
    d.compatible.reverse (calls.filterMap DraftCall.pair?)

theorem records_nil : Records {} [] := ⟨names_empty, .nil⟩

/-- A call adds what it says. -/
theorem Records.perform {d d' : WiringDraft} {calls : List DraftCall} (h : d.Records calls)
    {c : DraftCall} (hd' : c.perform d = .ok d') : d'.Records (calls ++ [c]) := by
  cases c with
  | addInstance m =>
    cases hd'
    refine ⟨?_, ?_⟩
    · rw [filterMap_concat_some (f := DraftCall.instance?) rfl, filterMap_concat_none rfl]
      exact h.names.addInstance m
    · rw [filterMap_concat_none rfl]
      exact h.compatible
  | addEndpoint owner type =>
    refine ⟨?_, ?_⟩
    · rw [filterMap_concat_none rfl, filterMap_concat_some (f := DraftCall.endpoint?) rfl]
      exact h.names.addEndpoint hd'
    · rw [DraftCall.perform, WiringDraft.addEndpoint] at hd'
      split at hd'
      · cases hd'
        rw [filterMap_concat_none rfl]
        exact h.compatible.imp fun _ _ hq =>
          ⟨getElem?_intern_of _ _ hq.1, getElem?_intern_of _ _ hq.2⟩
      · cases hd'
  | addCompatible a b =>
    cases hd'
    refine ⟨?_, ?_⟩
    · rw [filterMap_concat_none rfl, filterMap_concat_none rfl]
      exact h.names.addCompatible a b
    · rw [filterMap_concat_some (f := DraftCall.pair?) rfl, WiringDraft.addCompatible,
        List.reverse_cons]
      exact forall₂_concat (h.compatible.imp fun _ _ hq =>
        ⟨getElem?_types_addCompatible hq.1, getElem?_types_addCompatible hq.2⟩)
        ⟨getElem?_intern_of _ _ (getElem?_intern _ _), getElem?_intern _ _⟩

theorem Records.foldlM : ∀ {calls done : List DraftCall} {d d' : WiringDraft}, d.Records done →
    calls.foldlM DraftCall.perform d = .ok d' → d'.Records (done ++ calls)
  | [], done, d, d', h, hd' => by
    cases hd'
    rwa [List.append_nil]
  | c :: calls, done, d, d', h, hd' => by
    rw [List.foldlM_cons] at hd'
    cases hc : c.perform d with
    | error e => simp [hc, bind, Except.bind] at hd'
    | ok d₁ =>
      rw [hc] at hd'
      rw [← List.singleton_append, ← List.append_assoc]
      exact (h.perform hc).foldlM hd'

/-- A draft that calls build says what they said. -/
theorem records_ofCalls {calls : List DraftCall} {d : WiringDraft} (h : ofCalls calls = .ok d) :
    d.Records calls := records_nil.foldlM h

theorem mem_pairs {calls : List DraftCall} {a b : Model} :
    (a, b) ∈ calls.filterMap DraftCall.pair? ↔ DraftCall.addCompatible a b ∈ calls := by
  rw [List.mem_filterMap]
  constructor
  · rintro ⟨c, hmem, hc⟩
    cases c <;> simp [DraftCall.pair?] at hc
    rwa [← hc.1, ← hc.2]
  · exact fun hmem => ⟨_, hmem, rfl⟩

section Build

variable {d : WiringDraft} {calls : List DraftCall} (h : d.Records calls) {s t : Nat} {a b : Model}
  (hs : d.types[s]? = some a) (ht : d.types[t]? = some b)
include h hs ht

theorem Records.mem_compatible :
    (s, t) ∈ d.compatible ↔ DraftCall.addCompatible a b ∈ calls := by
  have hpairs := List.forall₂_iff_get.1 h.compatible
  rw [← mem_pairs, ← List.mem_reverse]
  constructor
  · intro hmem
    obtain ⟨i, hi, hget⟩ := List.getElem_of_mem hmem
    have hi' := h.compatible.length_eq ▸ hi
    obtain ⟨h1, h2⟩ := hpairs.2 i hi hi'
    simp only [List.get_eq_getElem, hget] at h1 h2
    rw [List.mem_iff_getElem]
    exact ⟨i, hi', Prod.ext (Option.some.inj (h1.symm.trans hs))
      (Option.some.inj (h2.symm.trans ht))⟩
  · intro hmem
    obtain ⟨i, hi, hget⟩ := List.getElem_of_mem hmem
    have hi' := h.compatible.length_eq.symm ▸ hi
    obtain ⟨h1, h2⟩ := hpairs.2 i hi' hi
    simp only [List.get_eq_getElem, hget] at h1 h2
    rw [List.mem_iff_getElem]
    exact ⟨i, hi', Prod.ext (number_inj h.names.nodup_types h1 hs)
      (number_inj h.names.nodup_types h2 ht)⟩

/-- Types fit together just if a call says so, in either order. -/
theorem Records.isCompatible_iff : d.build.isCompatible s t ↔
    DraftCall.addCompatible a b ∈ calls ∨ DraftCall.addCompatible b a ∈ calls := by
  rw [WiringProblem.isCompatible, WiringProblem.pairListed, Bool.or_eq_true, List.contains_iff_mem,
    List.contains_iff_mem]
  exact or_congr (h.mem_compatible hs ht) (h.mem_compatible ht hs)

end Build

end WiringDraft

/-! ### The graphs that are found -/

open WiringDraft

/-- A graph is a tree on the instances that calls add, with wires that they allow: the two ends of
a wire are at different instances and of types that fit, and no instance has more wires at a type
than it has endpoints. -/
structure ConnectionGraph.IsTreeOf (g : ConnectionGraph) (calls : List DraftCall) : Prop where
  nodes_eq : g.nodes = nodesOf (calls.filterMap DraftCall.instance?)
  isConnected : ∀ i < g.nodes.length, ∀ j < g.nodes.length, EqvGen g.Linked i j
  length_edges : g.edges.length = g.nodes.length - 1
  edges : ∀ e ∈ g.edges, e.source < g.nodes.length ∧ e.target < g.nodes.length ∧
    e.source ≠ e.target ∧
    (DraftCall.addCompatible e.sourceInterface e.targetInterface ∈ calls ∨
      DraftCall.addCompatible e.targetInterface e.sourceInterface ∈ calls)
  endCount_le : ∀ i type, g.endCount i type ≤ calls.count (.addEndpoint i type)

theorem count_addEndpoint (calls : List DraftCall) (i : Nat) (type : Model) :
    (calls.filterMap DraftCall.endpoint?).count (i, type) = calls.count (.addEndpoint i type) := by
  induction calls with
  | nil => rfl
  | cons c calls ih =>
    cases c with
    | addEndpoint owner t =>
      rw [List.filterMap_cons_some (f := DraftCall.endpoint?) rfl, List.count_cons,
        List.count_cons, ih]
      simp
    | addInstance m =>
      rw [List.filterMap_cons_none rfl, ih, List.count_cons_of_ne (by simp)]
    | addCompatible a b =>
      rw [List.filterMap_cons_none rfl, ih, List.count_cons_of_ne (by simp)]

/-- The graph of a wiring that links all instances is a tree on them. -/
theorem isTreeOf_of_isSolution {calls : List DraftCall} {d : WiringDraft} (h : d.Records calls)
    {g : ConnectionGraph} (hg : WiringSearch.IsSolution d.build g) : g.IsTreeOf calls := by
  obtain ⟨w, hw, hconnected, rfl⟩ := hg
  have hp := h.names.isProper_build
  have hwiring := PartialWiring.IsSound.isConnectedWiring hw hp hconnected
  have hnodes := ConnectionGraph.length_nodes_ofWiring d.build w
  refine ⟨h.names.instances_eq, fun i hi j hj => ?_, ?_, fun e he => ?_, fun i type => ?_⟩
  · rw [hnodes] at hi hj
    refine eqvGen_map (g := id) (fun a b hab => .rel _ _ ?_) (hwiring.connected i hi j hj)
    exact ConnectionGraph.linked_ofWiring_iff.2 hab
  · rw [hnodes, ← PartialWiring.length_connections_eq hw hconnected]
    exact List.length_map _
  · obtain ⟨q, hq, rfl⟩ := List.mem_map.1 he
    obtain ⟨h1, h2, howner, htype⟩ := (hp.mem_candidates _ _).1 (hwiring.fits q hq)
    rw [hnodes]
    exact ⟨hp.ownerOf_lt _ h1, hp.ownerOf_lt _ h2, howner.symm,
      (h.isCompatible_iff (h.names.getElem?_ends h1).2 (h.names.getElem?_ends h2).2).1 htype⟩
  · refine (ConnectionGraph.endCount_ofWiring_le hw hp i type).trans ?_
    rw [← count_addEndpoint, h.names.endpoints_eq, List.count_eq_countP, List.countP_map]
    exact (List.countP_congr fun e _ => by simp).le

/-- Whatever is drafted, whichever brancher and monitor is used and however the search ends, a graph
that a solver answers is a tree on the instances that were added, with wires that the calls
allow. -/
theorem isTreeOf_of_solve {calls : List DraftCall} {d : WiringDraft} (hd : ofCalls calls = .ok d)
    {s : WiringSolver} (hs : s.IsReachable) (b : Brancher) {μ : Type} [WiringObserver μ]
    (monitor : μ) {g : ConnectionGraph}
    (h : (s.solve d.build b monitor).outcome.result = .feasible g) : g.IsTreeOf calls := by
  have hrecords := records_ofCalls hd
  have hp := hrecords.names.isProper_build
  exact isTreeOf_of_isSolution hrecords (WiringSolver.isSolution_of_solve hs hp b monitor h)

/-- A rover with a plug and a dock with a socket that fits. -/
def roverAndDock : List DraftCall :=
  [.addInstance ⟨"Rover"⟩, .addInstance ⟨"Dock"⟩, .addEndpoint 0 ⟨"Plug"⟩,
    .addEndpoint 1 ⟨"Socket"⟩, .addCompatible ⟨"Plug"⟩ ⟨"Socket"⟩]

/-- The rover is plugged into the dock. -/
def pluggedIn : ConnectionGraph where
  nodes := [⟨⟨"Rover"⟩, 0⟩, ⟨⟨"Dock"⟩, 0⟩]
  edges := [⟨0, ⟨"Plug"⟩, 1, ⟨"Socket"⟩⟩]

deriving instance DecidableEq for WiringDraft

theorem isTreeOf_roverAndDock : ∃ d, ofCalls roverAndDock = .ok d ∧
    (({} : WiringSolver).solve d.build .lexicographic WiringMonitor.silent).outcome.result =
      .feasible pluggedIn ∧ pluggedIn.IsTreeOf roverAndDock := by
  have hdraft : ofCalls roverAndDock = .ok (WiringDraft.mk #[⟨"Rover"⟩, ⟨"Dock"⟩] #[0, 1]
      #[⟨"Plug"⟩, ⟨"Socket"⟩] #[(0, 0), (1, 1)] [(0, 1)]) := by decide +kernel
  have hfound : (({} : WiringSolver).solve (WiringDraft.mk #[⟨"Rover"⟩, ⟨"Dock"⟩] #[0, 1]
      #[⟨"Plug"⟩, ⟨"Socket"⟩] #[(0, 0), (1, 1)] [(0, 1)]).build .lexicographic
      WiringMonitor.silent).outcome.result = .feasible pluggedIn := by decide +kernel
  exact ⟨_, hdraft, hfound, isTreeOf_of_solve hdraft .new .lexicographic _ hfound⟩

end Muster
