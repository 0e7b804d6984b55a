import Signalbox.Survey.Sweep
import Signalbox.Survey.Trace

/-!
# Surveys

A survey finds the nodes of a region, either by sweeping the whole region or by tracing the track
around start cells.  Both are done one unit at a time.
-/

set_option autoImplicit false

namespace Signalbox

/-- Which part of a region is surveyed. -/
inductive SurveyScope where
  | whole
  | around (seeds : Seeds)

/-- A survey under way. -/
inductive Survey where
  | sweep (s : Sweep)
  | trace (s : Trace)

namespace Survey

/-- The survey of a region, before its first unit of work. -/
def start (c : BuildSettings) (h : Host) (ms : MarkerRoll) (r : RegionId) : SurveyScope → Survey
  | .whole => .sweep (.start c h ms r)
  | .around seeds => .trace (.start c h ms r seeds)

def isDone : Survey → Bool
  | sweep s => s.isDone
  | trace s => s.isDone

def advance : Survey → Survey
  | sweep s => sweep s.advance
  | trace s => trace s.advance

/-- A bound on the units left. -/
def work : Survey → Nat
  | sweep s => s.work
  | trace s => s.work

theorem work_advance (s : Survey) (h : s.isDone = false) : s.advance.work < s.work := by
  cases s with
  | sweep s => exact s.work_advance h
  | trace s => exact s.work_advance h

instance : Stepwise Survey := ⟨isDone, advance, work, work_advance⟩

/-- How many track cells were reached; a sweep reaches none. -/
def visited : Survey → Nat
  | sweep _ => 0
  | trace s => s.visited

/-- How many entries wait for their unit of work. -/
def queueLength : Survey → Nat
  | sweep s => s.queueLength
  | trace s => s.queueLength

def nodesFound : Survey → Nat
  | sweep s => s.nodesFound
  | trace s => s.nodesFound

/-- What a finished survey found. -/
def outcome : Survey → SurveyOutcome
  | sweep s => s.outcome
  | trace s => s.outcome

end Survey

end Signalbox
