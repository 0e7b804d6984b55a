import Signalbox.Network.Node
import Signalbox.Numeral.Total

/-!
# Markers

Markers in the world declare the nodes of a region.  Several markers may declare the same node; they
are kept in the order in which they are scanned.
-/

set_option autoImplicit false

namespace Signalbox

/-- The declaration of a node by a marker. -/
structure Marker where
  id : NodeId
  kind : NodeKind
  pos : Cell
  destination : Option String := none
  details : Option Details := none
deriving DecidableEq, Inhabited

/-- The node that a marker declares; details that say nothing are left out. -/
def Marker.toNode (m : Marker) : Node :=
  let n : Node := { id := m.id, kind := m.kind, pos := m.pos, destination := m.destination }
  match m.details with
  | some d => n.withDetails d
  | none => n

/-- The markers of every region, in scan order. -/
structure MarkerRoll where
  regions : Std.ExtTreeMap RegionId (List Marker)

namespace MarkerRoll

def empty : MarkerRoll := ⟨∅⟩

instance : Inhabited MarkerRoll := ⟨empty⟩

/-- The markers of a region. -/
def markers (t : MarkerRoll) (r : RegionId) : List Marker := t.regions[r]?.getD []

/-- The roll with more markers of a region, behind those it has.  The region is known from then
on, even without markers. -/
def extend (t : MarkerRoll) (r : RegionId) (ms : List Marker) : MarkerRoll :=
  ⟨t.regions.insert r (t.markers r ++ ms)⟩

def insert (t : MarkerRoll) (r : RegionId) (m : Marker) : MarkerRoll := t.extend r [m]

def regionCount (t : MarkerRoll) : Nat := t.regions.size

def size (t : MarkerRoll) : Nat := total (fun p => p.2.length) t.regions.toList

def isEmpty (t : MarkerRoll) : Bool := t.size = 0

/-- Up to `limit` markers of a region from `offset` on. -/
def scan (t : MarkerRoll) (r : RegionId) (offset limit : Nat) : List Marker :=
  ((t.markers r).drop offset).take limit

theorem markers_extend (t : MarkerRoll) (r s : RegionId) (ms : List Marker) :
    (t.extend r ms).markers s = if r = s then t.markers r ++ ms else t.markers s := by
  by_cases h : r = s
  · subst h; simp [extend, markers]
  · simp [extend, markers, Std.ExtTreeMap.getElem?_insert, h]

end MarkerRoll

end Signalbox
