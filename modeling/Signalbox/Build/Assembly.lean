import Signalbox.Network.Signature
import Signalbox.Territory.Links

/-!
# Assembling a network

Surveyed nodes and the links between them make up a network.  Every link becomes an edge at one
speed limit.  An edge carries the details of its end nodes if one of them has any.
-/

set_option autoImplicit false

namespace Signalbox

namespace Network

/-- The network of some nodes, without edges. -/
def ofNodes (ns : List Node) : Network := ns.foldl addNode empty

def detailsOf (g : Network) (i : NodeId) : Option Details := (g.node? i).bind Node.details

/-- The details of both ends, if there are any at one of them. -/
def detailsBetween (g : Network) (a b : NodeId) : Option EdgeDetails :=
  match g.detailsOf a, g.detailsOf b with
  | none, none => none
  | source, target => some { source, target }

def edgeOfLink (g : Network) (speed : Binary32) (l : Link) : Edge where
  source := l.a
  target := l.b
  length := l.length
  speedLimit := speed
  details := g.detailsBetween l.a l.b

/-- The network of surveyed nodes and the links between them. -/
def assemble (ns : List Site) (links : List Link) (speed : Binary32) :
    Except EdgeRefusal Network :=
  let g := ofNodes (ns.map Site.node)
  links.foldlM (fun h l => h.addEdge? (g.edgeOfLink speed l)) g

end Network

end Signalbox
