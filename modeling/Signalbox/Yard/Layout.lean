import Signalbox.Marker.Load
import Signalbox.Track.Laying

/-!
# The yard

A small yard to walk through.  Two lines leave the depot at `j-west`, where a switcher stands, and a
spur branches off at `x = 90`, where none does.

    depot ─────── j-west ────── wp-mid ──────┬────── central
                     │                       │
                     └──── north-1           └── spur-end
-/

set_option autoImplicit false

namespace Signalbox.Yard

def region : RegionId := ⟨"yard"⟩

/-- The lines of the marker table of the yard. -/
def markerLines : List String :=
  ["region,id,type,x,y,z,destination,operator,name,platform",
    "yard,depot,depot,0,65,0,,RLX,West Depot,1",
    "yard,j-west,switcher,40,65,0,north,,,",
    "yard,wp-mid,waypoint,70,65,0,,,,",
    "yard,central,station,120,65,0,,RLX,Central,2",
    "yard,north-1,station,100,65,30,,RLX,North,1",
    "yard,spur-end,waypoint,90,65,-15,,,,"]

/-- The marker table of the yard. -/
def markerText : String := String.join (markerLines.map (· ++ "\n"))

/-- A cell on the level of the yard. -/
def ground (x z : Int32) : Cell := ⟨x, 64, z⟩

def plan : List Track.LayingStep :=
  [.line (ground 0 0) (ground 120 0),
    .path [ground 40 1, ground 40 30, ground 100 30],
    .line (ground 90 (-1)) (ground 90 (-15))]

def track : Track := .ofPlan plan

def markers : Except LoadFault MarkerRoll := MarkerRoll.loadText markerText

end Signalbox.Yard
