import Signalbox.Network.Basic

/-!
# Charts

A chart is a network laid out for queries.  Nodes and edges stand in slots, each in ascending order;
two indexes lead from a name to its slot, and every node slot lists the slots of the edges at that
node.  Slots are looked up on trust, both while a chart is drawn and when it is read: an answer
`none` says that a slot or an index entry was missing.

* `Network.chart?` : the chart of a network.
-/

set_option autoImplicit false

namespace Signalbox

/-- Nodes and edges in slots, with indexes from names to slots. -/
structure Chart where
  nodes : Array Node
  nodeSlots : Std.ExtTreeMap NodeId Nat
  edges : Array Edge := #[]
  edgeSlots : Std.ExtTreeMap Ends Nat := ∅
  /-- For every node slot, the slots of the edges at that node. -/
  incident : Array (List Nat)

namespace Chart

/-! ## Drawing -/

/-- The chart of some nodes, without edges. -/
def ofNodes (ns : List Node) : Chart where
  nodes := ns.toArray
  nodeSlots := .ofList (ns.zipIdx.map fun p => (p.1.id, p.2))
  incident := .replicate ns.length []

/-- List an edge slot at a node. -/
def attach? (ch : Chart) (i : NodeId) (slot : Nat) : Option Chart := do
  let k ← ch.nodeSlots[i]?
  let slots ← ch.incident[k]?
  some { ch with incident := ch.incident.setIfInBounds k (slots ++ [slot]) }

/-- Put an edge into the next slot, and list the slot at both ends. -/
def enter? (ch : Chart) (entry : Ends × Edge) : Option Chart := do
  let slot := ch.edges.size
  let ch ← ch.attach? entry.2.source slot
  let ch ← ch.attach? entry.2.target slot
  some { ch with
    edges := ch.edges.push entry.2
    edgeSlots := ch.edgeSlots.insert entry.1 slot }

/-! ## Reading -/

def node? (ch : Chart) (i : NodeId) : Option (Option Node) :=
  match ch.nodeSlots[i]? with
  | none => some none
  | some k => ch.nodes[k]?.map some

/-- The edge with exactly these ends in this order, if there is one. -/
def edgeWith? (ch : Chart) (k : Ends) : Option (Option Edge) :=
  match ch.edgeSlots[k]? with
  | none => some none
  | some slot => ch.edges[slot]?.map some

/-- The edge between two nodes, whichever is named first. -/
def edge? (ch : Chart) (a b : NodeId) : Option (Option Edge) := ch.edgeWith? (Ends.of a b)

/-- The edges at a node. -/
def edgesOf? (ch : Chart) (i : NodeId) : Option (List Edge) :=
  match ch.nodeSlots[i]? with
  | none => some []
  | some k => ch.incident[k]?.bind fun slots => slots.mapM fun slot => ch.edges[slot]?

/-- The nodes that can be reached from a node over one edge. -/
def neighbors? (ch : Chart) (i : NodeId) : Option (List NodeId) :=
  (ch.edgesOf? i).map fun es => es.filterMap fun e => e.target? i

end Chart

/-- The chart of a network. -/
def Network.chart? (g : Network) : Option Chart :=
  g.edgeMap.toList.foldlM Chart.enter? (.ofNodes g.nodes)

end Signalbox
