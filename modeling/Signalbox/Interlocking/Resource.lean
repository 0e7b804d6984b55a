import Signalbox.Route.Basic

/-!
# Resources

What a train must hold before it moves: edges of the network, and the junctions under switchers.
A resource is a kind and a key; two trains contend exactly if they ask for the same resource.

* `Network.resourcesOfEdge`  : the edge itself and the junctions at its switcher ends;
* `Network.resourcesOfRoute` : the resources along a route, each once, in travel order.
-/

set_option autoImplicit false

namespace Signalbox

/-- What a resource names. -/
inductive ResourceKind where
  /-- A whole edge between two nodes. -/
  | edge
  /-- The branch point under a switcher. -/
  | junction
  /-- Anything else that is to be held by one train at a time. -/
  | custom
deriving DecidableEq, Inhabited

namespace ResourceKind

def text : ResourceKind → String
  | edge => "edge"
  | junction => "junction"
  | custom => "custom"

def rank : ResourceKind → Nat
  | edge => 0
  | junction => 1
  | custom => 2

theorem rank_injective {k l : ResourceKind} (h : k.rank = l.rank) : k = l := by
  cases k <;> cases l <;> simp_all [rank]

end ResourceKind

/-- A unit that one holder can claim. -/
structure Resource where
  kind : ResourceKind
  key : String
deriving DecidableEq, Inhabited

namespace Resource

/-! ## Order -/

/-- Resources are ordered by kind, then by key. -/
instance : Ord Resource :=
  ⟨compareLex (compareOn fun r => r.kind.rank) (compareOn Resource.key)⟩

instance : Std.TransOrd Resource :=
  inferInstanceAs (Std.TransCmp
    (compareLex (compareOn fun r : Resource => r.kind.rank) (compareOn Resource.key)))

theorem compare_def (r s : Resource) :
    compare r s = (compare r.kind.rank s.kind.rank).then (compare r.key s.key) := rfl

instance : Std.LawfulEqOrd Resource where
  eq_of_compare {r s} h := by
    rw [compare_def, Ordering.then_eq_eq] at h
    have hk := ResourceKind.rank_injective (Std.LawfulEqOrd.eq_of_compare h.1)
    have hs := Std.LawfulEqOrd.eq_of_compare h.2
    cases r; cases s
    simp_all

/-! ## Names -/

def ofEnds (k : Ends) : Resource := ⟨.edge, k.text⟩

def ofJunction (c : Cell) : Resource := ⟨.junction, c.text⟩

/-- Kind and key with a colon between them. -/
def text (r : Resource) : String := r.kind.text ++ ":" ++ r.key

end Resource

/-! ## Resources of edges and routes -/

/-- A route names an edge that the network does not have. -/
inductive RouteFault where
  | unknownEdge (edge : Ends)
deriving DecidableEq

def RouteFault.message : RouteFault → String
  | unknownEdge k => "edge " ++ k.text ++ " is not part of the graph snapshot"

namespace Network

/-- The junction under a node, if it is a switcher. -/
def junctionAt? (g : Network) (i : NodeId) : Option Resource :=
  match g.node? i with
  | some n => if n.isSwitcher then some (.ofJunction n.pos) else none
  | none => none

/-- The resources of an edge: itself, and the junctions under its source and its target. -/
def resourcesOfEdge (g : Network) (e : Edge) : List Resource :=
  .ofEnds e.ends :: [e.source, e.target].filterMap g.junctionAt?

/-- The edges of the network with these ends, or the first ends that it has no edge for. -/
def edgesNamed (g : Network) : List Ends → Except RouteFault (List Edge)
  | [] => .ok []
  | k :: ks =>
    match g.edgeWith? k with
    | none => .error (.unknownEdge k)
    | some e => (g.edgesNamed ks).map (e :: ·)

/-- The resources of a route in travel order, each where it occurs first. -/
def resourcesOfRoute (g : Network) (r : Route) : Except RouteFault (List Resource) :=
  (g.edgesNamed r.edges).map fun es => (es.flatMap g.resourcesOfEdge).eraseDups

end Network

end Signalbox
