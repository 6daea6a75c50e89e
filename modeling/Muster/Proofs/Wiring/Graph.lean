import Muster.Proofs.Wiring.Partial
import Muster.Wiring.Graph

/-!
The graph of a partial wiring. Its edges are the wires, each once, so no endpoint is used twice; if
the wiring links all instances then there is one edge less than there are nodes, and the wires are a
connected wiring of the problem.

Main statements: `IsSound.isConnectedWiring`, `length_connections_eq`, `endCount_ofWiring_le`,
`ConnectionGraph.isConnected_iff`, `ConnectionGraph.isConnected_ofWiring`.
-/

namespace Muster

open Relation (EqvGen)

namespace PartialWiring

/-! ### The wires -/

/-- The wire whose lower endpoint is `e`. -/
def wireAt (w : PartialWiring) (e : Nat) : Option (Nat × Nat) :=
  match w.partnerOf e with
  | some f => if e < f then some (e, f) else none
  | none => none

theorem wireAt_eq_some {w : PartialWiring} {e : Nat} {q : Nat × Nat} :
    w.wireAt e = some q ↔ q.1 = e ∧ w.partnerOf e = some q.2 ∧ e < q.2 := by
  obtain ⟨a, b⟩ := q
  rw [wireAt]
  cases hpartner : w.partnerOf e with
  | none => simp
  | some f =>
    by_cases hlt : e < f
    · simp only [if_pos hlt, Option.some.injEq, Prod.mk.injEq]
      constructor
      · rintro ⟨rfl, rfl⟩
        exact ⟨rfl, rfl, hlt⟩
      · rintro ⟨rfl, rfl, -⟩
        exact ⟨rfl, rfl⟩
    · simp only [if_neg hlt, Option.some.injEq, reduceCtorEq, false_iff]
      rintro ⟨-, rfl, h⟩
      exact hlt h

theorem connections_eq (w : PartialWiring) :
    w.connections = (List.range w.partners.size).filterMap w.wireAt := by
  have hzip : w.partners.toList.zipIdx =
      (List.range w.partners.size).map fun e => (w.partnerOf e, e) := by
    refine List.ext_getElem (by simp) fun i h1 h2 => ?_
    have hi : i < w.partners.size := by simpa using h1
    simp [partnerOf, hi]
  rw [connections, hzip, List.filterMap_map]
  rfl

theorem mem_connections {w : PartialWiring} {q : Nat × Nat} :
    q ∈ w.connections ↔ w.partnerOf q.1 = some q.2 ∧ q.1 < q.2 := by
  rw [connections_eq, List.mem_filterMap]
  constructor
  · rintro ⟨e, -, he⟩
    obtain ⟨rfl, h⟩ := wireAt_eq_some.1 he
    exact h
  · rintro ⟨hpartner, hlt⟩
    refine ⟨q.1, List.mem_range.2 ?_, wireAt_eq_some.2 ⟨rfl, hpartner, hlt⟩⟩
    by_contra hout
    simp [partnerOf, Array.getD, hout] at hpartner

theorem nodup_connections (w : PartialWiring) : w.connections.Nodup := by
  rw [connections_eq]
  refine List.nodup_range.filterMap fun e e' q hq hq' => ?_
  exact (wireAt_eq_some.1 hq).1.symm.trans (wireAt_eq_some.1 hq').1

section Sound

variable {w : PartialWiring} {p : WiringProblem} (hw : w.IsSound p)
include hw

theorem length_connections : w.connections.length = w.connectionCount := by
  rw [connections_eq, hw.size_partners, List.length_filterMap_eq_countP, ← hw.countP_isLower]
  refine List.countP_congr fun e _ => ?_
  rw [wireAt, isLower]
  cases w.partnerOf e with
  | none => simp
  | some f => by_cases hlt : e < f <;> simp [hlt]

/-- No endpoint is at two wires. -/
theorem nodup_endsOf_connections : (endsOf w.connections).Nodup := by
  refine List.nodup_flatMap.2 ⟨fun q hq => ?_,
    (nodup_connections w).imp_of_mem fun {q r} hq hr hqr => ?_⟩
  · simpa using (mem_connections.1 hq).2.ne
  · obtain ⟨hq, hqlt⟩ := mem_connections.1 hq
    obtain ⟨hr, hrlt⟩ := mem_connections.1 hr
    have hq' := hw.partnerOf_comm _ _ hq
    have hr' := hw.partnerOf_comm _ _ hr
    refine List.disjoint_left.2 fun x hxq hxr => ?_
    simp only [List.mem_cons, List.not_mem_nil, or_false] at hxq hxr
    rcases hxq with rfl | rfl <;> rcases hxr with hx | hx
    · rw [hx, hr, Option.some.injEq] at hq
      exact hqr (Prod.ext hx hq.symm)
    · rw [hx, hr', Option.some.injEq] at hq
      omega
    · rw [hx, hr, Option.some.injEq] at hq'
      omega
    · rw [hx, hr', Option.some.injEq] at hq'
      exact hqr (Prod.ext hq'.symm hx)

theorem linked_of_partnerOf {e f : Nat} (h : w.partnerOf e = some f) (he : e ≠ f) :
    EqvGen (fun a b => ∃ q ∈ w.connections, p.ownerOf q.1 = a ∧ p.ownerOf q.2 = b)
      (p.ownerOf e) (p.ownerOf f) := by
  rcases Nat.lt_or_gt_of_ne he with hlt | hlt
  · exact .rel _ _ ⟨(e, f), mem_connections.2 ⟨h, hlt⟩, rfl, rfl⟩
  · exact (EqvGen.rel _ _ ⟨(f, e), mem_connections.2 ⟨hw.partnerOf_comm _ _ h, hlt⟩, rfl, rfl⟩).symm

variable (hp : p.IsProper)
include hp

/-- The wires link what partners link. -/
theorem eqvGen_connections_iff {i j : Nat} :
    EqvGen (fun a b => ∃ q ∈ w.connections, p.ownerOf q.1 = a ∧ p.ownerOf q.2 = b) i j ↔
      EqvGen (w.Linked p) i j := by
  constructor <;> refine eqvGen_map (g := id) fun a b hab => ?_
  · obtain ⟨q, hq, rfl, rfl⟩ := hab
    exact .rel _ _ ⟨q.1, q.2, (mem_connections.1 hq).1, rfl, rfl⟩
  · obtain ⟨e, f, hef, rfl, rfl⟩ := hab
    refine linked_of_partnerOf hw hef ?_
    rintro rfl
    exact ((hp.mem_candidates e e).1 (hw.partnerOf_fits e e hef)).2.2.1 rfl

variable (hconnected : w.isConnected)
include hconnected

/-- The wires of a sound wiring that links all instances are a connected wiring. -/
theorem IsSound.isConnectedWiring : p.IsConnectedWiring w.connections where
  fits q hq := hw.partnerOf_fits _ _ (mem_connections.1 hq).1
  disjoint := nodup_endsOf_connections hw
  connected i hi j hj := by
    have hone := (DisjointSet.components_le_one_iff hw.isPartition).1 (of_decide_eq_true hconnected)
    rw [hw.length_components] at hone
    exact (eqvGen_connections_iff hw hp).2 ((hw.represents i j).1 (hone i hi j hj))

omit hp in
/-- There is one wire less than there are instances. -/
theorem length_connections_eq : w.connections.length = p.instanceCount - 1 := by
  have hadd := hw.connectionCount_add
  have hone : w.componentCount ≤ 1 := of_decide_eq_true hconnected
  rw [length_connections hw]
  by_cases hzero : p.instanceCount = 0
  · omega
  · have hpos : 0 < w.componentCount := by
      rw [componentCount, hw.isPartition.components_eq, List.countP_pos_iff]
      have hlt : 0 < w.components.length := by
        rw [hw.length_components]
        omega
      exact ⟨_, List.mem_range.2 (DisjointSet.find_lt hw.isPartition.toIsForest hlt),
        beq_iff_eq.2 (DisjointSet.parentOf_find hw.isPartition.toIsForest 0)⟩
    omega

end Sound

end PartialWiring

/-! ### Graphs -/

namespace ConnectionGraph

/-- The number of edge ends of an interface type at a node. -/
def endCount (g : ConnectionGraph) (n : Nat) (type : Model) : Nat :=
  g.edges.countP (fun e => e.source == n && e.sourceInterface == type) +
    g.edges.countP (fun e => e.target == n && e.targetInterface == type)

/-- A node uses no more interfaces of a type than its instance has endpoints. -/
theorem endCount_ofWiring_le {w : PartialWiring} {p : WiringProblem} (hw : w.IsSound p)
    (hp : p.IsProper) (n : Nat) (type : Model) : (ofWiring p w).endCount n type ≤
      (List.range p.endpointCount).countP fun e => p.ownerOf e == n && p.typeModelOf e == type := by
  have hsub : endsOf w.connections ⊆ List.range p.endpointCount := by
    intro x hx
    obtain ⟨q, hq, hxq⟩ := mem_endsOf.1 hx
    obtain ⟨h1, h2⟩ := hp.lt_of_mem_candidates
      (hw.partnerOf_fits _ _ (PartialWiring.mem_connections.1 hq).1)
    rcases hxq with rfl | rfl
    · exact List.mem_range.2 h1
    · exact List.mem_range.2 h2
  have hcount := ((PartialWiring.nodup_endsOf_connections hw).subperm hsub).countP_le
    fun e => p.ownerOf e == n && p.typeModelOf e == type
  rw [countP_endsOf] at hcount
  rw [endCount, ofWiring, List.countP_map, List.countP_map]
  exact hcount

/-- Two nodes are linked if an edge joins them. -/
def Linked (g : ConnectionGraph) (i j : Nat) : Prop := ∃ e ∈ g.edges, e.source = i ∧ e.target = j

/-- A well-formed graph is connected just if edges link all nodes. -/
theorem isConnected_iff {g : ConnectionGraph} (hg : g.isWellFormed) :
    g.isConnected ↔ ∀ i < g.nodes.length, ∀ j < g.nodes.length, EqvGen g.Linked i j := by
  have hunion : g.edges.foldl (fun s e => (s.union e.source e.target).2)
      (DisjointSet.singletons g.nodes.length) = (DisjointSet.singletons g.nodes.length).unionAll
        (g.edges.map fun e => (e.source, e.target)) := by
    rw [DisjointSet.unionAll, List.foldl_map]
  have hpart := DisjointSet.isPartition_singletons g.nodes.length
  have hholds : (DisjointSet.singletons g.nodes.length).Holds
      (g.edges.map fun e => (e.source, e.target)) := by
    intro q hq
    obtain ⟨e, he, rfl⟩ := List.mem_map.1 hq
    have hlt := List.all_eq_true.1 hg e he
    rw [Bool.and_eq_true, decide_eq_true_iff, decide_eq_true_iff] at hlt
    rwa [DisjointSet.length_singletons]
  obtain ⟨hall, hlength⟩ := DisjointSet.isPartition_unionAll hpart hholds
  have hrepresents : ((DisjointSet.singletons g.nodes.length).unionAll
      (g.edges.map fun e => (e.source, e.target))).Represents g.Linked := by
    refine ((DisjointSet.represents_singletons _).unionAll hpart hholds).congr (fun i j hij => ?_)
      fun i j hij => ?_
    · obtain ⟨e, he, heq⟩ := List.mem_map.1 (hij.resolve_left id)
      exact .rel _ _ ⟨e, he, congrArg Prod.fst heq, congrArg Prod.snd heq⟩
    · obtain ⟨e, he, rfl, rfl⟩ := hij
      exact .rel _ _ (.inr (List.mem_map.2 ⟨e, he, rfl⟩))
  rw [isConnected, decide_eq_true_iff, hunion, DisjointSet.components_le_one_iff hall, hlength,
    DisjointSet.length_singletons]
  exact forall₄_congr fun i _ j _ => hrepresents i j

section OfWiring

variable {w : PartialWiring} {p : WiringProblem}

theorem length_nodes_ofWiring (p : WiringProblem) (w : PartialWiring) :
    (ofWiring p w).nodes.length = p.instanceCount := by
  simp [ofWiring, WiringProblem.instanceCount]

theorem linked_ofWiring_iff {i j : Nat} : (ofWiring p w).Linked i j ↔
    ∃ q ∈ w.connections, p.ownerOf q.1 = i ∧ p.ownerOf q.2 = j := by
  simp [Linked, ofWiring]

theorem isWellFormed_ofWiring (hw : w.IsSound p) (hp : p.IsProper) :
    (ofWiring p w).isWellFormed := by
  refine List.all_eq_true.2 fun e he => ?_
  obtain ⟨q, hq, rfl⟩ := List.mem_map.1 he
  obtain ⟨h1, h2⟩ := hp.lt_of_mem_candidates
    (hw.partnerOf_fits _ _ (PartialWiring.mem_connections.1 hq).1)
  rw [length_nodes_ofWiring, Bool.and_eq_true, decide_eq_true_iff, decide_eq_true_iff]
  exact ⟨hp.ownerOf_lt _ h1, hp.ownerOf_lt _ h2⟩

/-- The graph of a sound wiring is connected just if its instances hang together. -/
theorem isConnected_ofWiring (hw : w.IsSound p) (hp : p.IsProper) :
    (ofWiring p w).isConnected = w.isConnected := by
  have hlinked : (ofWiring p w).Linked =
      fun a b => ∃ q ∈ w.connections, p.ownerOf q.1 = a ∧ p.ownerOf q.2 = b := by
    funext i j
    exact propext linked_ofWiring_iff
  have hinstances : w.isConnected ↔
      ∀ i < p.instanceCount, ∀ j < p.instanceCount, EqvGen (w.Linked p) i j := by
    rw [PartialWiring.isConnected, decide_eq_true_iff, PartialWiring.componentCount,
      DisjointSet.components_le_one_iff hw.isPartition, hw.length_components]
    exact forall₄_congr fun i _ j _ => hw.represents i j
  rw [Bool.eq_iff_iff, isConnected_iff (isWellFormed_ofWiring hw hp), length_nodes_ofWiring,
    hinstances, hlinked]
  exact forall₄_congr fun i _ j _ => PartialWiring.eqvGen_connections_iff hw hp

end OfWiring

end ConnectionGraph
end Muster
