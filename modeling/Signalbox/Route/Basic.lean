import Signalbox.Network.Basic

/-!
# Routes

A route goes from node to node along edges in a permitted direction.  What it is to minimise is the
`Objective`; nodes may be named that it must not enter, unless they are its end.
-/

set_option autoImplicit false

namespace Signalbox

/-- What a route query minimises. -/
inductive Objective where
  /-- Cell steps. -/
  | length
  /-- Milliseconds at the speed limits. -/
  | travelTime
deriving DecidableEq, Inhabited

/-- What an edge costs under an objective. -/
def Objective.cost : Objective → Edge → Nat
  | length, e => e.length
  | travelTime, e => e.travelTime

/-- The terms of a route query. -/
structure RouteOptions where
  objective : Objective := .length
  /-- Nodes that the route must not enter; its end is exempt. -/
  avoid : Std.ExtTreeSet NodeId := ∅

/-- A route: its nodes and edges in travel order, its length and its cost. -/
structure Route where
  nodes : List NodeId
  edges : List Ends
  totalLength : Nat
  cost : Nat
deriving DecidableEq, Inhabited

/-- Whether the route stays where it starts. -/
def Route.isTrivial (r : Route) : Bool := r.edges.isEmpty

/-- Where an edge leads on to from a node: it must be permitted to leave there, and the node that is
entered must not be one to avoid. -/
def RouteOptions.exit? (o : RouteOptions) (goal n : NodeId) (e : Edge) : Option NodeId :=
  match e.target? n with
  | some m => if m ≠ goal ∧ m ∈ o.avoid then none else some m
  | none => none

/-- The edges that lead on from a node, with the nodes they lead to. -/
def Network.exits (g : Network) (o : RouteOptions) (goal n : NodeId) : List (Edge × NodeId) :=
  (g.edgesOf n).filterMap fun e => (o.exit? goal n e).map fun m => (e, m)

end Signalbox
