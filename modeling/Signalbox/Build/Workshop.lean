import Signalbox.Build.Blocking
import Signalbox.Build.Possessions

/-!
# Workshops

A workshop keeps jobs and bare claims under names of the user's choice, all of them over one track
and one roll of markers.  A job holds its region until it is done; a job or claim that is dropped
gives its region free.
-/

set_option autoImplicit false

namespace Signalbox

/-- Jobs and claims by their names. -/
structure Workshop where
  /-- The track, as its host tells of it. -/
  track : Host
  markers : MarkerRoll
  possessions : Possessions := .empty
  jobs : Std.ExtTreeMap String Job := ∅
  slots : Std.ExtTreeMap String RegionId := ∅

namespace Workshop

/-- Start a job.  A job that had the name is dropped once the region is claimed. -/
def start (w : Workshop) (name : String) (c : BuildSettings) (r : RegionId) (scope : SurveyScope) :
    Except BuildFault Workshop :=
  match c.check with
  | .error e => .error (.settings e)
  | .ok () =>
    match w.possessions.claim r with
    | .error e => .error e
    | .ok possessions =>
      .ok { w with
        possessions := (w.jobs[name]?).elim possessions possessions.abandon
        jobs := w.jobs.insert name (.start c w.track w.markers r scope) }

/-- The workshop after its job of that name went through some steps. -/
def absorb (w : Workshop) (name : String) (j : Job) (steps : List JobStep) : Workshop :=
  { w with
    possessions := w.possessions.hearAll (steps.flatMap JobStep.notices)
    jobs := w.jobs.insert name ((steps.getLast?.map JobStep.job).getD j) }

/-- Step a job once. -/
def step (w : Workshop) (name : String) (b : Allowance) : Option (Workshop × JobStep) :=
  w.jobs[name]?.map fun j =>
    let done := j.step b
    (w.absorb name j [done], done)

def run (w : Workshop) (name : String) (b : Allowance) : Option (Workshop × List JobStep) :=
  w.jobs[name]?.map fun j =>
    let done := j.run b
    (w.absorb name j done, done)

def cancel (w : Workshop) (name : String) : Option Workshop :=
  w.jobs[name]?.map fun j =>
    { w with possessions := w.possessions.abandon j, jobs := w.jobs.insert name j.cancel }

def drop (w : Workshop) (name : String) : Option Workshop :=
  w.jobs[name]?.map fun j =>
    { w with possessions := w.possessions.abandon j, jobs := w.jobs.erase name }

/-- Claim a region without a job.  A claim that had the name is dropped once the region is
claimed. -/
def claim (w : Workshop) (name : String) (r : RegionId) : Except BuildFault Workshop :=
  match w.possessions.claim r with
  | .error e => .error e
  | .ok possessions =>
    .ok { w with
      possessions := (w.slots[name]?).elim possessions possessions.free
      slots := w.slots.insert name r }

def unclaim (w : Workshop) (name : String) : Option Workshop :=
  w.slots[name]?.map fun r =>
    { w with possessions := w.possessions.free r, slots := w.slots.erase name }

def job? (w : Workshop) (name : String) : Option Job := w.jobs[name]?

end Workshop

end Signalbox
