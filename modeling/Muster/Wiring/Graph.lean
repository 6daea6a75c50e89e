import Muster.Wiring.Partial

/-!
Connection graphs: which instances are wired, and by interfaces of which types.
-/

namespace Muster

/-- An instance in a graph. -/
structure ConnectionNode where
  model : Model
  ordinal : Nat
deriving DecidableEq, Inhabited

/-- The short name of a node. -/
def ConnectionNode.text (n : ConnectionNode) : String :=
  n.model.fragment ++ "#" ++ toString n.ordinal

/-- A wire between the nodes at two positions. -/
structure ConnectionEdge where
  source : Nat
  sourceInterface : Model
  target : Nat
  targetInterface : Model
deriving DecidableEq, Inhabited

/-- Instances and wires between them. -/
structure ConnectionGraph where
  nodes : List ConnectionNode := []
  edges : List ConnectionEdge := []
deriving DecidableEq, Inhabited

namespace ConnectionGraph

/-- The graph of a partial wiring. -/
def ofWiring (p : WiringProblem) (w : PartialWiring) : ConnectionGraph where
  nodes := p.instances.toList.map fun i => ⟨i.model, i.ordinal⟩
  edges := w.connections.map fun (e, f) =>
    ⟨p.ownerOf e, p.typeModelOf e, p.ownerOf f, p.typeModelOf f⟩

/-- Whether every wire joins nodes of the graph. -/
def isWellFormed (g : ConnectionGraph) : Bool :=
  g.edges.all fun e => decide (e.source < g.nodes.length) && decide (e.target < g.nodes.length)

/-- The number of wires at a node. -/
def degree (g : ConnectionGraph) (n : Nat) : Nat :=
  g.edges.countP fun e => e.source == n || e.target == n

/-- Whether all nodes hang together. -/
def isConnected (g : ConnectionGraph) : Bool :=
  let linked := g.edges.foldl (fun s e => (s.union e.source e.target).2)
    (DisjointSet.singletons g.nodes.length)
  decide (linked.components ≤ 1)

/-- The short name of the node at a position. -/
def nodeText (g : ConnectionGraph) (n : Nat) : String := (g.nodes.getD n default).text

/-- The text of a wire. -/
def edgeText (g : ConnectionGraph) (e : ConnectionEdge) : String :=
  g.nodeText e.source ++ "." ++ e.sourceInterface.fragment ++ " -- " ++
    g.nodeText e.target ++ "." ++ e.targetInterface.fragment

/-- The text of a graph. -/
def text (g : ConnectionGraph) : String :=
  "ConnectionGraph(nodes: [" ++ ", ".intercalate (g.nodes.map ConnectionNode.text) ++
    "], edges: [" ++ ", ".intercalate (g.edges.map g.edgeText) ++ "])"

end ConnectionGraph
end Muster
