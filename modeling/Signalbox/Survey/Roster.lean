import Signalbox.Survey.Report

/-!
# The roster of declared nodes

Markers are merged into a roster, which keeps one marker for every node.  The first marker of a node
counts, until one with a destination takes the place of one without; any later marker that differs
from the one that counts is recorded as a conflict.

* `Roster.size_merge_le` : a marker adds one node at most.
-/

set_option autoImplicit false

namespace Signalbox

/-- The marker that counts for each node, and the tally of what was merged. -/
structure Roster where
  known : Std.ExtTreeMap NodeId Marker := ∅
  scanned : Nat := 0
  invalid : Nat := 0
  conflicts : List MarkerConflict := []

namespace Roster

def empty : Roster := {}

instance : Inhabited Roster := ⟨empty⟩

def size (r : Roster) : Nat := r.known.size

/-- The markers that count, by the id of their node. -/
def markers (r : Roster) : List Marker := r.known.toList.map Prod.snd

/-- Whether a marker takes the place of the one that counts. -/
def supersedes (new held : Marker) : Bool := held.destination.isNone && new.destination.isSome

/-- The roster with one more marker.  A marker without an id is only counted. -/
def merge (r : Roster) (m : Marker) : Roster :=
  let r := { r with scanned := r.scanned + 1 }
  if m.id.isEmpty then { r with invalid := r.invalid + 1 }
  else
    match r.known[m.id]? with
    | none => { r with known := r.known.insert m.id m }
    | some held =>
      if held = m then r
      else if supersedes m held then
        { r with
          known := r.known.insert m.id m
          conflicts := r.conflicts ++ [⟨m.id, m, held⟩] }
      else { r with conflicts := r.conflicts ++ [⟨m.id, held, m⟩] }

/-- The roster with more markers, merged in their order. -/
def mergeAll (r : Roster) (ms : List Marker) : Roster := ms.foldl merge r

@[simp] theorem length_markers (r : Roster) : r.markers.length = r.size := by
  simp [markers, size]

theorem size_merge_le (r : Roster) (m : Marker) : (r.merge m).size ≤ r.size + 1 := by
  unfold merge
  simp only [size]
  split
  · simp
  · split
    · exact Std.ExtTreeMap.size_insert_le
    · split
      · simp
      · split
        · exact Std.ExtTreeMap.size_insert_le
        · simp

/-- What the survey reports that merged these markers. -/
def report (r : Roster) (unanchored disconnected : Nat) (origin : Option StartOrigin) :
    SurveyReport where
  scanned := r.scanned
  conflicts := r.conflicts
  invalid := r.invalid
  unanchored := unanchored
  disconnected := disconnected
  origin := origin

end Roster

end Signalbox
