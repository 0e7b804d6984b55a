import Signalbox.Network.Edge

/-!
# Networks

A network is a set of nodes by name and a set of edges by their ends.  Every edge joins two
different nodes of the network, and of several edges between the same two nodes the shortest is
kept, the earliest of the shortest.  Nodes and edges are listed in ascending order.

* `Network.addEdge?` : refuses an edge from a node to itself and one with an unknown end;
* `Network.mem_edgesOf` : the edges of a node are those that touch it.
-/

set_option autoImplicit false

namespace Signalbox

/-- The nodes and edges of a region.  The proofs say that everything is filed under its own name
and that edges join different known nodes. -/
structure Network where
  nodeMap : Std.ExtTreeMap NodeId Node
  edgeMap : Std.ExtTreeMap Ends Edge
  node_id : ∀ (i : NodeId) (n : Node), nodeMap[i]? = some n → n.id = i
  edge_ends : ∀ (k : Ends) (e : Edge), edgeMap[k]? = some e → e.ends = k
  edge_known : ∀ (k : Ends) (e : Edge), edgeMap[k]? = some e →
    e.source ≠ e.target ∧ e.source ∈ nodeMap ∧ e.target ∈ nodeMap

/-- Why an edge is refused. -/
inductive EdgeRefusal where
  | selfLoop (node : NodeId)
  | unknownEnd (source target : NodeId)
deriving DecidableEq

def EdgeRefusal.message : EdgeRefusal → String
  | selfLoop n => "edge " ++ n.text ++ " -> " ++ n.text ++ " is a self-loop"
  | unknownEnd s t =>
    "edge " ++ s.text ++ " -> " ++ t.text ++ " references a node missing from the graph"

namespace Network

/-! ## Construction -/

def empty : Network where
  nodeMap := ∅
  edgeMap := ∅
  node_id := by simp
  edge_ends := by simp
  edge_known := by simp

instance : Inhabited Network := ⟨empty⟩

theorem ext {g h : Network} (hn : g.nodeMap = h.nodeMap) (he : g.edgeMap = h.edgeMap) : g = h := by
  cases g; cases h
  simp_all

/-- The network with a node, in place of a node of the same name. -/
def addNode (g : Network) (n : Node) : Network where
  nodeMap := g.nodeMap.insert n.id n
  edgeMap := g.edgeMap
  node_id i m h := by
    rw [Std.ExtTreeMap.getElem?_insert] at h
    split at h
    · rename_i hi
      have hi' := Std.LawfulEqOrd.eq_of_compare hi
      simp only [Option.some.injEq] at h
      rw [← h, hi']
    · exact g.node_id i m h
  edge_ends := g.edge_ends
  edge_known k e h := by
    obtain ⟨h1, h2, h3⟩ := g.edge_known k e h
    exact ⟨h1, by simp [h2], by simp [h3]⟩

/-- The network with an edge between known nodes, unless one no longer is there already. -/
def putEdge (g : Network) (e : Edge)
    (h : e.source ≠ e.target ∧ e.source ∈ g.nodeMap ∧ e.target ∈ g.nodeMap) : Network :=
  if (g.edgeMap[e.ends]?).any (fun old => old.length ≤ e.length) then g
  else
    { g with
      edgeMap := g.edgeMap.insert e.ends e
      edge_ends := by
        intro k d hd
        rw [Std.ExtTreeMap.getElem?_insert] at hd
        split at hd
        · rename_i hk
          have hk' := Std.LawfulEqOrd.eq_of_compare hk
          simp only [Option.some.injEq] at hd
          rw [← hd, hk']
        · exact g.edge_ends k d hd
      edge_known := by
        intro k d hd
        rw [Std.ExtTreeMap.getElem?_insert] at hd
        split at hd
        · simp only [Option.some.injEq] at hd
          rw [← hd]; exact h
        · exact g.edge_known k d hd }

/-- Add an edge, or refuse it: first if it is a loop, then if an end is unknown. -/
def addEdge? (g : Network) (e : Edge) : Except EdgeRefusal Network :=
  if hl : e.source = e.target then .error (.selfLoop e.source)
  else if h : e.source ∈ g.nodeMap ∧ e.target ∈ g.nodeMap then .ok (g.putEdge e ⟨hl, h⟩)
  else .error (.unknownEnd e.source e.target)

/-! ## Contents -/

def nodeCount (g : Network) : Nat := g.nodeMap.size

def edgeCount (g : Network) : Nat := g.edgeMap.size

def isEmpty (g : Network) : Bool := g.nodeMap.isEmpty

/-- All nodes, by ascending name. -/
def nodes (g : Network) : List Node := g.nodeMap.toList.map Prod.snd

/-- All edges, by ascending ends. -/
def edges (g : Network) : List Edge := g.edgeMap.toList.map Prod.snd

def node? (g : Network) (i : NodeId) : Option Node := g.nodeMap[i]?

def contains (g : Network) (i : NodeId) : Bool := decide (i ∈ g.nodeMap)

def nodesOfKind (g : Network) (k : NodeKind) : List Node := g.nodes.filter fun n => n.kind = k

/-- The edge with exactly these ends in this order. -/
def edgeWith? (g : Network) (k : Ends) : Option Edge := g.edgeMap[k]?

/-- The edge between two nodes, whichever is named first. -/
def edge? (g : Network) (a b : NodeId) : Option Edge := g.edgeWith? (Ends.of a b)

/-- The edges that touch a node, whatever their direction. -/
def edgesOf (g : Network) (i : NodeId) : List Edge := g.edges.filter fun e => e.touches i

/-- The nodes that can be reached from a node over one edge. -/
def neighbors (g : Network) (i : NodeId) : List NodeId :=
  (g.edgesOf i).filterMap fun e => e.target? i

theorem mem_edges {g : Network} {e : Edge} : e ∈ g.edges ↔ g.edgeMap[e.ends]? = some e := by
  rw [edges, List.mem_map]
  constructor
  · rintro ⟨⟨k, d⟩, h, rfl⟩
    have h' := Std.ExtTreeMap.mem_toList_iff_getElem?_eq_some.1 h
    rw [g.edge_ends k d h']
    exact h'
  · intro h
    exact ⟨(e.ends, e), Std.ExtTreeMap.mem_toList_iff_getElem?_eq_some.2 h, rfl⟩

theorem mem_edgesOf {g : Network} {e : Edge} {i : NodeId} :
    e ∈ g.edgesOf i ↔ e ∈ g.edges ∧ e.touches i = true := by
  rw [edgesOf, List.mem_filter]

theorem mem_nodes {g : Network} {n : Node} : n ∈ g.nodes ↔ g.nodeMap[n.id]? = some n := by
  rw [nodes, List.mem_map]
  constructor
  · rintro ⟨⟨i, m⟩, h, rfl⟩
    have h' := Std.ExtTreeMap.mem_toList_iff_getElem?_eq_some.1 h
    rw [g.node_id i m h']
    exact h'
  · intro h
    exact ⟨(n.id, n), Std.ExtTreeMap.mem_toList_iff_getElem?_eq_some.2 h, rfl⟩

end Network

end Signalbox
