import Signalbox.Allowance
import Signalbox.Marker.Pages
import Signalbox.Settings
import Signalbox.Survey.Roster
import Signalbox.Track.Nearest

/-!
# Sweeping a region

A sweep surveys a whole region.  It first merges every marker into a roster and then anchors the
nodes on the nearest track, in the order of their ids.  A node without track nearby is kept.  One
unit of work merges one marker, closes the roster, or anchors one node.
-/

set_option autoImplicit false

namespace Signalbox

/-- How far a sweep has come. -/
inductive SweepStage where
  | collecting (pages : Pages)
  | anchoring (pending : List Marker) (found : List Site)

/-- A survey of a whole region. -/
structure Sweep where
  host : Host
  anchorRadius : UInt32
  roster : Roster
  stage : SweepStage

namespace Sweep

/-- The sweep of a region, before its first unit of work. -/
def start (c : BuildSettings) (h : Host) (ms : MarkerRoll) (r : RegionId) : Sweep where
  host := h
  anchorRadius := c.anchorRadius
  roster := .empty
  stage := .collecting (.ofTable ms r)

/-- The node that a marker declares, on the track nearest to it. -/
def anchor (s : Sweep) (m : Marker) : Site := ⟨m.toNode, s.host.nearest m.pos s.anchorRadius⟩

def isDone (s : Sweep) : Bool :=
  match s.stage with
  | .anchoring [] _ => true
  | _ => false

def advance (s : Sweep) : Sweep :=
  match s.stage with
  | .collecting pages =>
    match pages.next? with
    | some (m, pages) => { s with roster := s.roster.merge m, stage := .collecting pages }
    | none => { s with stage := .anchoring s.roster.markers [] }
  | .anchoring [] _ => s
  | .anchoring (m :: pending) found =>
    { s with stage := .anchoring pending (found ++ [s.anchor m]) }

/-- A bound on the units left. -/
def work (s : Sweep) : Nat :=
  match s.stage with
  | .collecting pages => 2 * pages.left + s.roster.size + 1
  | .anchoring pending _ => pending.length

theorem work_advance (s : Sweep) (h : s.isDone = false) : s.advance.work < s.work := by
  unfold isDone at h
  unfold advance work
  split at h
  · simp at h
  · cases hs : s.stage with
    | collecting pages =>
      cases hn : pages.next? with
      | none => simp only [hn, Roster.length_markers]; omega
      | some p =>
        have h1 := Pages.left_of_next? (m := p.1) (q := p.2) hn
        have h2 := s.roster.size_merge_le p.1
        simp only [hn]
        omega
    | anchoring pending found =>
      cases pending with
      | nil => simp_all
      | cons m pending => simp

instance : Stepwise Sweep := ⟨isDone, advance, work, work_advance⟩

/-- How many markers and nodes wait for their unit of work. -/
def queueLength (s : Sweep) : Nat :=
  match s.stage with
  | .collecting pages => pages.page.length
  | .anchoring pending _ => pending.length

def nodesFound (s : Sweep) : Nat :=
  match s.stage with
  | .collecting _ => s.roster.size
  | .anchoring pending found => pending.length + found.length

/-- The nodes anchored so far. -/
def found (s : Sweep) : List Site :=
  match s.stage with
  | .collecting _ => []
  | .anchoring _ found => found

/-- What a finished sweep found. -/
def outcome (s : Sweep) : SurveyOutcome :=
  .nodes s.found (s.roster.report (s.found.countP fun n => n.anchors.isEmpty) 0 none)

end Sweep

end Signalbox
