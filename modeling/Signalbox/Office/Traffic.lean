import Signalbox.Interlocking.Ledger
import Signalbox.Office.Atlas
import Signalbox.Route.Search

/-!
# Traffic

Trains ask for routes over the latest network of a region and reserve them.  Every region has its
ledger of claims, which outlives the networks.
-/

set_option autoImplicit false

namespace Signalbox

/-- Why a route has no resources. -/
inductive TrafficFault where
  | unknownRegion (region : RegionId)
  | route (e : RouteFault)
deriving DecidableEq

def TrafficFault.message : TrafficFault → String
  | unknownRegion r => "no graph has been published for region " ++ r.text
  | route e => e.message

/-- The ledgers of the regions. -/
structure Traffic where
  settings : HeadwaySettings
  ledgers : Std.ExtTreeMap RegionId Ledger := ∅

namespace Traffic

def ledger (t : Traffic) (r : RegionId) : Ledger := t.ledgers[r]?.getD (.empty t.settings)

def setLedger (t : Traffic) (r : RegionId) (l : Ledger) : Traffic :=
  { t with ledgers := t.ledgers.insert r l }

/-- The resources of a route on the latest network of a region. -/
def resources (a : Atlas) (r : RegionId) (path : Route) : Except TrafficFault (List Resource) :=
  match a.network? r with
  | none => .error (.unknownRegion r)
  | some g =>
    match g.resourcesOfRoute path with
    | .error e => .error (.route e)
    | .ok rs => .ok rs

/-- Ask for everything that a route needs, and record it if it is granted. -/
def reserve (t : Traffic) (a : Atlas) (r : RegionId) (holder : HolderId) (path : Route)
    (now : Timestamp) : Except TrafficFault (Traffic × Decision) :=
  match resources a r path with
  | .error e => .error e
  | .ok rs =>
    let (l, d) := (t.ledger r).acquire { holder, now, resources := rs }
    .ok (t.setLedger r l, d)

end Traffic

namespace Atlas

/-- The best route between two nodes of a region. -/
def route? (a : Atlas) (r : RegionId) (o : RouteOptions) (source target : NodeId) :
    Option Route :=
  (a.network? r).bind fun g => g.shortestRoute o source target

def node? (a : Atlas) (r : RegionId) (i : NodeId) : Option Node :=
  (a.network? r).bind fun g => g.node? i

def edge? (a : Atlas) (r : RegionId) (x y : NodeId) : Option Edge :=
  (a.network? r).bind fun g => g.edge? x y

def missing (a : Atlas) (r : RegionId) : List Cell :=
  ((a.report? r).map EditionReport.missing).getD []

end Atlas

end Signalbox
