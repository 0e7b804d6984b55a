import Signalbox.Office.Desk
import Signalbox.Office.Traffic

/-!
# Dispatch offices

An office has a build desk and looks after the traffic on what the desk has published.  It keeps
routes under names, and it may hold regions itself, so that nobody builds them.
-/

set_option autoImplicit false

namespace Signalbox

/-- A build desk, the traffic, and what the office keeps. -/
structure Office where
  desk : Desk
  traffic : Traffic
  routes : Std.ExtTreeMap String Route := ∅
  held : Std.ExtTreeSet RegionId := ∅

namespace Office

/-- The office for a world, before anything is built. -/
def start (c : Settings) (t : Host) (ms : MarkerRoll) (k : Keeper) : Office where
  desk := { track := t, markers := ms, settings := c.build, keeper := k }
  traffic := { settings := c.occupancy }

def atlas (o : Office) : Atlas := o.desk.atlas

/-- Hold a region that nobody builds. -/
def hold (o : Office) (r : RegionId) : Except BuildFault Office :=
  match o.desk.possessions.claim r with
  | .error e => .error e
  | .ok possessions => .ok { o with desk := { o.desk with possessions }, held := o.held.insert r }

/-- Give a region free that the office holds. -/
def letGo (o : Office) (r : RegionId) : Option Office :=
  if r ∈ o.held then
    some { o with
      desk := { o.desk with possessions := o.desk.possessions.free r }
      held := o.held.erase r }
  else none

/-- Ask for a route, and keep it under a name if there is one. -/
def findRoute (o : Office) (r : RegionId) (opts : RouteOptions) (source target : NodeId)
    (name : Option String) : Office × Option Route :=
  let found := o.atlas.route? r opts source target
  match name, found with
  | some n, some route => ({ o with routes := o.routes.insert n route }, found)
  | _, _ => (o, found)

/-- Forget the network of a region, if there is one. -/
def forget (o : Office) (r : RegionId) : Option Office :=
  (o.atlas.edition? r).map fun _ =>
    { o with desk := { o.desk with atlas := o.desk.atlas.remove r } }

/-- Reserve a route on the latest network of a region. -/
def reserve (o : Office) (r : RegionId) (holder : HolderId) (path : Route) (now : Timestamp) :
    Except TrafficFault (Office × Decision) :=
  match o.traffic.reserve o.atlas r holder path now with
  | .error e => .error e
  | .ok (traffic, d) => .ok ({ o with traffic }, d)

end Office

end Signalbox
