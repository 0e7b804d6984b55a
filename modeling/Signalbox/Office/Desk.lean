import Signalbox.Build.Blocking
import Signalbox.Build.Possessions
import Signalbox.Numeral.Total
import Signalbox.Office.Atlas
import Signalbox.Storage.Archive

/-!
# The build desk

The desk looks after the builds under way, at most one in a region, and steps all of them at every
tick of its owner's clock.  A build that succeeds is published in the atlas and then, if there is
an archive, kept there; whatever becomes of a build, it leaves the desk when it is done.

* `Desk.closer_tick` : a tick with something to spend brings a desk that is not idle closer to being
  idle.
-/

set_option autoImplicit false

namespace Signalbox

/-- Where published networks are kept: nowhere, in an archive, in a place that fails, or in any
other place, of which only its answers are known, in the order in which it gives them. -/
inductive Keeper where
  | nobody
  | archive (a : Archive)
  | broken (f : StorageFault)
  | other (answers : Nat → Option ArchiveFault)

namespace Keeper

def save (k : Keeper) (r : RegionId) (g : Network) : Keeper × Option ArchiveFault :=
  match k with
  | nobody => (nobody, none)
  | archive a => let (a, f) := a.save r g; (archive a, f)
  | broken f => (broken f, some (.folder f))
  | other answers => (other fun n => answers (n + 1), answers 0)

def file? (k : Keeper) (r : RegionId) (name : String) : Option String :=
  match k with
  | archive a => a.file? r name
  | nobody | broken _ | other _ => none

end Keeper

/-- What becomes of a build at a tick. -/
inductive DeskEvent where
  | published (report : EditionReport)
  | failed (region : RegionId) (error : BuildFault)
  | saveFailed (region : RegionId) (fault : ArchiveFault)

/-- The builds under way and what they are built from and published in. -/
structure Desk where
  /-- The track, as its host tells of it. -/
  track : Host
  markers : MarkerRoll
  settings : BuildSettings
  keeper : Keeper := .nobody
  possessions : Possessions := .empty
  atlas : Atlas := .empty
  jobs : Std.ExtTreeMap RegionId Job := ∅

namespace Desk

/-- Start the build of a region. -/
def start (d : Desk) (r : RegionId) (scope : SurveyScope) : Except BuildFault Desk :=
  match d.settings.check with
  | .error e => .error (.settings e)
  | .ok () =>
    match d.possessions.claim r with
    | .error e => .error e
    | .ok possessions =>
      .ok { d with
        possessions
        jobs := d.jobs.insert r (.start d.settings d.track d.markers r scope) }

def status? (d : Desk) (r : RegionId) : Option JobProgress := d.jobs[r]?.map Job.status

/-- Stop the build of a region, if there is one. -/
def cancel (d : Desk) (r : RegionId) : Option Desk :=
  d.jobs[r]?.map fun j =>
    { d with possessions := d.possessions.abandon j, jobs := d.jobs.erase r }

/-- The regions that are being built, in ascending order. -/
def activeRegions (d : Desk) : List RegionId := d.jobs.keys

def isIdle (d : Desk) : Bool := d.jobs.isEmpty

/-! ## Ticks -/

/-- Publish a build and have it kept.  A fault in keeping it is told first. -/
def publish (d : Desk) (b : BuiltRegion) (now : Timestamp) : Desk × List DeskEvent :=
  let (atlas, report) := d.atlas.publish b now
  let (keeper, fault) := d.keeper.save b.region b.network
  ({ d with atlas, keeper },
    (fault.map (DeskEvent.saveFailed b.region)).toList ++ [.published report])

/-- What a notice of a build means for the desk. -/
def hear (now : Timestamp) (d : Desk) (n : Notice) : Desk × List DeskEvent :=
  let d := { d with possessions := d.possessions.hear n }
  match n with
  | .success b => d.publish b now
  | .failure r e => (d, [.failed r e])
  | _ => (d, [])

/-- What several notices mean for the desk. -/
def hearAll (now : Timestamp) (d : Desk) : List Notice → Desk × List DeskEvent
  | [] => (d, [])
  | n :: ns =>
    let (d, es) := d.hear now n
    let (d, fs) := d.hearAll now ns
    (d, es ++ fs)

/-- The job of a step, unless it is done. -/
def stillOpen (s : JobStep) : Option Job := if s.job.isDone then none else some s.job

/-- Step every build once, in the order of the regions. -/
def tick (b : Allowance) (now : Timestamp) (d : Desk) : Desk × List DeskEvent :=
  let steps := d.jobs.map fun _ j => j.step b
  let (d, events) := d.hearAll now (steps.toList.flatMap fun (_, s) => s.notices)
  ({ d with jobs := steps.filterMap fun _ s => stillOpen s }, events)

/-! ## Progress -/

/-- How many stages lie ahead of all builds, and one more for each. -/
def stagesLeft (d : Desk) : Nat := total (fun p => p.2.stagesLeft + 1) d.jobs.toList

/-- A bound on the units left in the current stages of all builds. -/
def stageWork (d : Desk) : Nat := total (fun p => p.2.stageWork) d.jobs.toList

/-- A desk is closer to being idle if fewer stages lie ahead, or less work in the same stages. -/
def Closer (e d : Desk) : Prop :=
  e.stagesLeft < d.stagesLeft ∨ (e.stagesLeft = d.stagesLeft ∧ e.stageWork < d.stageWork)

theorem jobs_tick (b : Allowance) (now : Timestamp) (d : Desk) :
    (d.tick b now).1.jobs.toList =
      d.jobs.toList.filterMap fun p => (stillOpen (p.2.step b)).map fun j => (p.1, j) := by
  rw [tick, Std.ExtTreeMap.toList_filterMap, Std.ExtTreeMap.toList_map, List.filterMap_map]
  rfl

/-- Of some jobs, those that are still open after a step are together closer to their end. -/
theorem sums_filterMap {b : Allowance} (hb : 0 < b.maxUnits) (l : List (RegionId × Job)) :
    let m := l.filterMap fun p => (stillOpen (p.2.step b)).map fun j => (p.1, j)
    let stages (l : List (RegionId × Job)) := total (fun p => p.2.stagesLeft + 1) l
    let work (l : List (RegionId × Job)) := total (fun p => p.2.stageWork) l
    m = [] ∧ l = [] ∨ stages m < stages l ∨ (stages m = stages l ∧ work m < work l) := by
  induction l with
  | nil => exact Or.inl ⟨rfl, rfl⟩
  | cons p l ih =>
    right
    simp only at ih ⊢
    by_cases hd : (p.2.step b).job.isDone = true
    · have h1 : stillOpen (p.2.step b) = none := if_pos hd
      simp only [List.filterMap_cons, h1, Option.map_none, total_cons]
      rcases ih with ⟨h, h'⟩ | h | h
      · left; rw [h, h']; simp
      · left; omega
      · left; omega
    · have h1 : stillOpen (p.2.step b) = some (p.2.step b).job := if_neg hd
      have hj : p.2.isDone = false := by
        cases hj : p.2.isDone with
        | false => rfl
        | true =>
          have : (p.2.step b).job = p.2 := by
            unfold Job.step
            rw [Job.stepFrom, if_neg (by simp [hj])]
          rw [this, hj] at hd
          exact absurd rfl hd
      have hc : (p.2.step b).job.Closer p.2 := Job.closer_step hb hj
      simp only [List.filterMap_cons, h1, Option.map_some, total_cons]
      unfold Job.Closer at hc
      rcases ih with ⟨-, rfl⟩ | h | h
      · simp only [List.filterMap_nil, total_nil]
        omega
      · omega
      · omega

theorem closer_tick {b : Allowance} {now : Timestamp} {d : Desk} (hb : 0 < b.maxUnits)
    (hd : d.isIdle = false) : Closer (d.tick b now).1 d := by
  have h := sums_filterMap hb d.jobs.toList
  simp only at h
  unfold Closer stagesLeft stageWork
  rw [jobs_tick]
  rcases h with ⟨-, h⟩ | h
  · rw [isIdle, Std.ExtTreeMap.isEmpty_toList.symm, h] at hd
    simp at hd
  · exact h

/-- Tick until the desk is idle, keeping the events of every tick. -/
def runToIdle (b : Allowance) (now : Timestamp) (d : Desk) : Desk × List (List DeskEvent) :=
  if d.isIdle = false ∧ 0 < b.maxUnits then
    let t := d.tick b now
    let rest := runToIdle b now t.1
    (rest.1, t.2 :: rest.2)
  else (d, [])
termination_by (d.stagesLeft, d.stageWork)
decreasing_by
  rename_i h
  rw [Prod.lex_def]
  exact closer_tick h.2 h.1

end Desk

end Signalbox
