import Signalbox.Allowance
import Signalbox.Marker.Pages
import Signalbox.Settings
import Signalbox.Survey.Roster
import Signalbox.Track.Flood
import Signalbox.Track.Nearest

/-!
# Tracing the track around start cells

A trace surveys the track that is connected to some start cells.  It merges the markers of the
region into a roster, chooses the start cells, floods the connected track from them, and keeps the
nodes that have an anchor on the flooded track, with those anchors only.  One unit of work merges
one marker, chooses the start cells, floods the neighbours of one cell, keeps or leaves out one
node, or closes a stage.

* `Trace.mem_of_startCells?` : start cells are laid track.
-/

set_option autoImplicit false

namespace Signalbox

/-- How far a trace has come; it ends `settled`, or `stranded` when there is no start cell. -/
inductive TraceStage where
  | collecting (pages : Pages)
  | seeding
  | flooding
  | filtering (pending : List Marker)
  | stranded
  | settled

/-- A survey of the track around start cells. -/
structure Trace where
  host : Host
  anchorRadius : UInt32
  seedRadius : UInt32
  seeds : Seeds
  roster : Roster
  flood : Flood
  origin : Option StartOrigin
  /-- The nodes kept so far. -/
  kept : List Site
  /-- How many nodes were left out so far. -/
  leftOut : Nat
  stage : TraceStage

namespace Trace

/-- The trace in a region, before its first unit of work.  Markers made with a tool are merged
before those of the region. -/
def start (c : BuildSettings) (h : Host) (ms : MarkerRoll) (r : RegionId) (seeds : Seeds) :
    Trace where
  host := h
  anchorRadius := c.anchorRadius
  seedRadius := c.seedRadius
  seeds := seeds
  roster := Roster.empty.mergeAll seeds.toolMarkers
  flood := {}
  origin := none
  kept := []
  leftOut := 0
  stage := .collecting (.ofTable ms r)

/-! ## Start cells -/

/-- The known marker nearest to a position within the seed radius; of several the one whose id
comes first. -/
def nearestMarker? (s : Trace) (p : Cell) : Option Marker :=
  let reach := Int64.ofNat s.seedRadius.toNat * Int64.ofNat s.seedRadius.toNat
  let near := s.roster.markers.filter fun m => decide (m.pos.distanceSq p ≤ reach)
  near.minOn? fun m => (m.pos.distanceSq p).toInt

/-- The cells to start from, if there are any: tool cells that hold track, else the track at the
marker nearest to the requester, else the track at the requester. -/
def startCells? (s : Trace) : Option (List Cell × StartOrigin) :=
  let tool := s.seeds.toolCells.filter s.host.laid.isTrack
  if tool ≠ [] then some (tool, .tool)
  else
    match s.seeds.requester with
    | none => none
    | some p =>
      let atMarker := match s.nearestMarker? p with
        | none => none
        | some m =>
          match s.host.nearest m.pos s.seedRadius with
          | [] => none
          | c :: cs => some (c :: cs, .nearestMarker m.id)
      match atMarker with
      | some found => some found
      | none =>
        match s.host.nearest p s.seedRadius with
        | [] => none
        | c :: cs => some (c :: cs, .requester)

theorem mem_of_startCells? {s : Trace} {cs : List Cell} {o : StartOrigin}
    (h : s.startCells? = some (cs, o)) : ∀ c ∈ cs, c ∈ s.host.laid := by
  intro c hc
  have near : ∀ p, c ∈ s.host.nearest p s.seedRadius → c ∈ s.host.laid :=
    fun p => s.host.nearest_laid p s.seedRadius c
  unfold startCells? at h
  simp only at h
  split at h
  · simp only [Option.some.injEq, Prod.mk.injEq] at h
    obtain ⟨rfl, -⟩ := h
    simpa [Track.isTrack] using (List.mem_filter.1 hc).2
  · split at h
    · simp at h
    · rename_i p _
      split at h
      · rename_i found hf
        simp only [Option.some.injEq] at h
        subst h
        split at hf
        · simp at hf
        · rename_i m _
          split at hf
          · simp at hf
          · rename_i d ds hd
            simp only [Option.some.injEq, Prod.mk.injEq] at hf
            obtain ⟨rfl, -⟩ := hf
            exact near _ (hd ▸ hc)
      · split at h
        · simp at h
        · rename_i d ds hd
          simp only [Option.some.injEq, Prod.mk.injEq] at h
          obtain ⟨rfl, -⟩ := h
          exact near _ (hd ▸ hc)

/-! ## Work -/

def isDone (s : Trace) : Bool :=
  match s.stage with
  | .stranded | .settled => true
  | _ => false

/-- The cells near a marker that were flooded. -/
def anchors (s : Trace) (m : Marker) : List Cell :=
  (s.host.nearest m.pos s.anchorRadius).filter fun c => decide (c ∈ s.flood.reached)

/-- Keep the node of a marker if it has an anchor. -/
def sort (s : Trace) (m : Marker) : Trace :=
  match s.anchors m with
  | [] => { s with leftOut := s.leftOut + 1 }
  | c :: cs => { s with kept := s.kept ++ [⟨m.toNode, c :: cs⟩] }

def advance (s : Trace) : Trace :=
  match s.stage with
  | .collecting pages =>
    match pages.next? with
    | some (m, pages) => { s with roster := s.roster.merge m, stage := .collecting pages }
    | none => { s with stage := .seeding }
  | .seeding =>
    match s.startCells? with
    | some (cs, o) =>
      { s with flood := s.flood.enterAll cs, origin := some o, stage := .flooding }
    | none => { s with stage := .stranded }
  | .flooding =>
    match s.flood.advance? s.host.laid with
    | some flood => { s with flood }
    | none => { s with stage := .filtering s.roster.markers }
  | .filtering (m :: pending) => { s.sort m with stage := .filtering pending }
  | .filtering [] => { s with stage := .settled }
  | .stranded => s
  | .settled => s

/-- A bound on the units left. -/
def work (s : Trace) : Nat :=
  match s.stage with
  | .collecting pages => 2 * pages.left + s.roster.size + s.flood.left s.host.laid + 4
  | .seeding => s.roster.size + s.flood.left s.host.laid + 3
  | .flooding => s.roster.size + s.flood.left s.host.laid + 2
  | .filtering pending => pending.length + 1
  | .stranded => 0
  | .settled => 0

theorem work_advance (s : Trace) (h : s.isDone = false) : s.advance.work < s.work := by
  unfold isDone at h
  unfold advance work
  cases hs : s.stage with
  | collecting pages =>
    cases hn : pages.next? with
    | none => simp only [hn]; omega
    | some p =>
      have h1 := Pages.left_of_next? (m := p.1) (q := p.2) hn
      have h2 := s.roster.size_merge_le p.1
      simp only [hn]
      omega
  | seeding =>
    cases hc : s.startCells? with
    | none => simp only; omega
    | some p =>
      have := Flood.left_enterAll_le s.flood (mem_of_startCells? (o := p.2) hc)
      simp only
      omega
  | flooding =>
    cases hf : s.flood.advance? s.host.laid with
    | none => simp only [Roster.length_markers]; omega
    | some f =>
      have := Flood.left_advance? hf
      simp only
      omega
  | filtering pending =>
    cases pending with
    | nil => simp
    | cons m pending => simp
  | stranded => simp [hs] at h
  | settled => simp [hs] at h

instance : Stepwise Trace := ⟨isDone, advance, work, work_advance⟩

def visited (s : Trace) : Nat := s.flood.reached.size

/-- How many cells and nodes wait for their unit of work. -/
def queueLength (s : Trace) : Nat :=
  s.flood.queue.length + match s.stage with
    | .filtering pending => pending.length
    | _ => 0

/-- How many nodes are known, and later on how many are kept. -/
def nodesFound (s : Trace) : Nat :=
  match s.stage with
  | .collecting _ | .seeding | .flooding => s.roster.size
  | .filtering _ | .stranded | .settled => s.kept.length

/-- What a finished trace found. -/
def outcome (s : Trace) : SurveyOutcome :=
  let report := s.roster.report 0 s.leftOut s.origin
  match s.stage with
  | .stranded => .noStart report
  | _ => .nodes s.kept report

end Trace

end Signalbox
