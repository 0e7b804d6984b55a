import Signalbox.Marker.Basic

/-!
# What a survey finds

A survey of a region finds the sites of nodes, each with the track cells it is anchored on, and
reports what it noticed on the way.  A survey around start cells may find that there are none.
-/

set_option autoImplicit false

namespace Signalbox

/-- A node and the track cells it stands for, none if no track is near. -/
structure Site where
  node : Node
  anchors : List Cell
deriving DecidableEq, Inhabited

/-- The id of the node of a site. -/
def Site.id (n : Site) : NodeId := n.node.id

/-- Two differing markers of one node: the one that counts and the one that does not. -/
structure MarkerConflict where
  id : NodeId
  kept : Marker
  dropped : Marker
deriving DecidableEq

/-- What the start cells of a survey are: cells chosen with a tool, the track at the marker nearest
to whoever asked, or the track where they stand. -/
inductive StartOrigin where
  | tool
  | nearestMarker (id : NodeId)
  | requester
deriving DecidableEq

/-- What a survey noticed. -/
structure SurveyReport where
  /-- How many markers were looked at. -/
  scanned : Nat
  /-- The conflicts, in the order in which they were found. -/
  conflicts : List MarkerConflict
  /-- How many markers had no id. -/
  invalid : Nat
  /-- How many nodes were kept although they have no anchor. -/
  unanchored : Nat
  /-- How many nodes were left out because they have no anchor on the traced track. -/
  disconnected : Nat
  /-- Where a survey around start cells started. -/
  origin : Option StartOrigin
deriving DecidableEq

/-- How a survey ended. -/
inductive SurveyOutcome where
  | nodes (found : List Site) (report : SurveyReport)
  | noStart (report : SurveyReport)
deriving DecidableEq

/-- What a survey may start from: cells chosen with a tool, markers made with it, and the position
of whoever asked. -/
structure Seeds where
  toolCells : List Cell := []
  toolMarkers : List Marker := []
  requester : Option Cell := none
deriving DecidableEq, Inhabited

end Signalbox
