import Signalbox.Cell
import Signalbox.Ident
import Signalbox.Text.Printable

/-!
# Nodes

A node is a named place of the network: a way point, a station, a depot, or a switcher, where track
branches and routes are set.  It may be tagged with a destination and described by details.
-/

set_option autoImplicit false

namespace Signalbox

/-! ## Kinds -/

/-- The role of a node. -/
inductive NodeKind where
  | waypoint
  | station
  | depot
  | switcher
deriving DecidableEq, Inhabited

namespace NodeKind

def text : NodeKind → String
  | waypoint => "waypoint"
  | station => "station"
  | depot => "depot"
  | switcher => "switcher"

def all : List NodeKind := [waypoint, station, depot, switcher]

/-- The kind of that exact name. -/
def named? (s : String) : Option NodeKind := all.find? fun k => k.text = s

/-- What remains of a text for the name of a kind: no blanks around it, no capitals. -/
def normalize (s : String) : String := Text.foldCase (Text.trim s)

/-- The kind that a text names, if it names one. -/
def ofText? (s : String) : Option NodeKind := named? (normalize s)

/-- The complaint about a text that names no kind. -/
def unknownMessage (s : String) : String :=
  "unknown node type " ++ Text.quoted (normalize s)
    ++ ": expected waypoint, station, depot or switcher"

end NodeKind

/-! ## Nodes -/

/-- What a station or depot says about itself. -/
structure Details where
  operator : Option String := none
  name : Option String := none
  platform : Option UInt16 := none
deriving DecidableEq, Inhabited

/-- Details that say nothing. -/
def Details.isEmpty (d : Details) : Bool :=
  d.operator.isNone && d.name.isNone && d.platform.isNone

/-- A place of the network. -/
structure Node where
  id : NodeId
  kind : NodeKind
  pos : Cell
  destination : Option String := none
  details : Option Details := none
deriving DecidableEq, Inhabited

namespace Node

/-- The node with the given details; details that say nothing are left out. -/
def withDetails (n : Node) (d : Details) : Node :=
  { n with details := if d.isEmpty then none else some d }

def isSwitcher (n : Node) : Bool := n.kind = .switcher

/-- A switcher without a destination stands in until a tagged definition replaces it. -/
def isProvisional (n : Node) : Bool := n.isSwitcher && n.destination.isNone

end Node

end Signalbox
