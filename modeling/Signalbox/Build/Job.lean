import Signalbox.Build.Assembly
import Signalbox.Survey.Basic

/-!
# Build jobs

A job builds the network of one region: it surveys the region, lets the nodes take territory, and
assembles the network of what both have found.  It is stepped from outside, each step with an
allowance of its own, and tells by notices what has become of it.

* `Job.closer_turn` : every turn of an unfinished job brings it closer to its end, so that stepping
  it with any allowance that is not empty comes to an end.
-/

set_option autoImplicit false

namespace Signalbox

/-! ## Why builds fail -/

/-- Why a build is refused or fails. -/
inductive BuildFault where
  | alreadyRunning (region : RegionId)
  | noStartCell (region : RegionId)
  | noNodes (region : RegionId)
  | settings (e : SettingsFault)
  | assembly (e : EdgeRefusal)
deriving DecidableEq

def BuildFault.message : BuildFault → String
  | alreadyRunning r => "a graph build for region " ++ r.text ++ " is already in progress"
  | noStartCell r => "no track cell under any seed for region " ++ r.text
  | noNodes r => "discovery found no nodes in region " ++ r.text
  | settings e => e.message
  | assembly e => "graph assembly failed: " ++ e.message

/-! ## What a job tells -/

/-- How far a build has come. -/
inductive JobPhase where
  | discovering
  | exploring
  | finished
  | failed
  | cancelled
deriving DecidableEq

namespace JobPhase

def text : JobPhase → String
  | discovering => "discovering"
  | exploring => "exploring"
  | finished => "finished"
  | failed => "failed"
  | cancelled => "cancelled"

/-- Whether nothing happens any more. -/
def isTerminal : JobPhase → Bool
  | discovering | exploring => false
  | finished | failed | cancelled => true

end JobPhase

/-- What a successful build yields. -/
structure BuiltRegion where
  region : RegionId
  network : Network
  /-- Junctions where several origins meet and no switcher stands. -/
  missing : List Cell
  survey : SurveyReport
  /-- The units of work that were spent. -/
  processed : Nat

/-- What a job tells while it is stepped.  It gives its region free before it tells that it is
finished or failed. -/
inductive Notice where
  | released (region : RegionId)
  | phase (region : RegionId) (phase : JobPhase)
  | success (built : BuiltRegion)
  | failure (region : RegionId) (error : BuildFault)

/-- The end of a build, if a notice tells of it. -/
def Notice.result? : Notice → Option (Except BuildFault BuiltRegion)
  | success built => some (.ok built)
  | failure _ error => some (.error error)
  | _ => none

/-- The progress of a job. -/
structure JobProgress where
  region : RegionId
  phase : JobPhase
  /-- Track cells visited in the current phase. -/
  visited : Nat
  /-- Entries that wait for their unit of work. -/
  queued : Nat
  /-- Units of work spent so far. -/
  processed : Nat
  nodesFound : Nat
deriving DecidableEq

/-! ## Jobs -/

/-- Where a job stands. -/
inductive JobStage where
  | surveying (s : Survey)
  | exploring (found : List Site) (report : SurveyReport) (s : Territory)
  | finished
  | failed
  | cancelled

/-- The build of one region. -/
structure Job where
  region : RegionId
  settings : BuildSettings
  host : Host
  stage : JobStage
  processed : Nat := 0

/-- What a step did: the units it used, the job after it, and the notices given on the way. -/
structure JobStep where
  used : Nat
  job : Job
  notices : List Notice

namespace Job

/-- The job of a region, before its first unit of work. -/
def start (c : BuildSettings) (h : Host) (ms : MarkerRoll) (r : RegionId) (scope : SurveyScope) :
    Job where
  region := r
  settings := c
  host := h
  stage := .surveying (.start c h ms r scope)

def phase (j : Job) : JobPhase :=
  match j.stage with
  | .surveying _ => .discovering
  | .exploring _ _ _ => .exploring
  | .finished => .finished
  | .failed => .failed
  | .cancelled => .cancelled

/-- Whether the job finished, failed or was cancelled. -/
def isDone (j : Job) : Bool := j.phase.isTerminal

def status (j : Job) : JobProgress :=
  let (visited, queued, nodesFound) := match j.stage with
    | .surveying s => (s.visited, s.queueLength, s.nodesFound)
    | .exploring found _ s => (s.visited, s.queueLength, found.length)
    | .finished | .failed | .cancelled => (0, 0, 0)
  { region := j.region, phase := j.phase, visited, queued, processed := j.processed, nodesFound }

/-- Stop the job, unless it is done. -/
def cancel (j : Job) : Job := if j.isDone then j else { j with stage := .cancelled }

/-! ## Steps -/

def fail (j : Job) (e : BuildFault) : Job × List Notice :=
  ({ j with stage := .failed },
    [.released j.region, .phase j.region .failed, .failure j.region e])

def succeed (j : Job) (g : Network) (report : SurveyReport) (missing : List Cell) :
    Job × List Notice :=
  ({ j with stage := .finished },
    [.released j.region, .phase j.region .finished,
      .success { region := j.region, network := g, missing, survey := report,
                 processed := j.processed }])

/-- Go on from a finished survey. -/
def closeSurvey (j : Job) : SurveyOutcome → Job × List Notice
  | .noStart _ => j.fail (.noStartCell j.region)
  | .nodes found report =>
    ({ j with stage := .exploring found report (.start j.host.laid found) },
      [.phase j.region .exploring])

/-- Go on from territory that is all taken. -/
def closeTerritory (j : Job) (found : List Site) (report : SurveyReport) (s : Territory) :
    Job × List Notice :=
  match Network.assemble found s.links j.settings.speedLimit with
  | .error e => j.fail (.assembly e)
  | .ok g =>
    let cover := SwitcherCover.ofNodes found j.settings.anchorRadius
    j.succeed g report (s.missingSwitchers cover j.settings.missingCap.toNat)

/-- Go on to the next stage if the current one is through. -/
def handOver (j : Job) : Job × List Notice :=
  match j.stage with
  | .surveying s => if s.isDone then j.closeSurvey s.outcome else (j, [])
  | .exploring found report s => if s.isDone then j.closeTerritory found report s else (j, [])
  | .finished | .failed | .cancelled => (j, [])

/-- Spend an allowance within the current stage. -/
def spend (b : Allowance) (j : Job) : Nat × Job :=
  match j.stage with
  | .surveying s =>
    let (n, s) := Stepwise.step b s
    (n, { j with stage := .surveying s, processed := j.processed + n })
  | .exploring found report s =>
    let (n, s) := Stepwise.step b s
    (n, { j with stage := .exploring found report s, processed := j.processed + n })
  | .finished | .failed | .cancelled => (0, j)

/-- Spend an allowance within the current stage, and go on to the next one if it is through. -/
def turn (b : Allowance) (j : Job) : JobStep :=
  let (used, j) := j.spend b
  let (job, notices) := j.handOver
  { used, job, notices }

/-! ## Progress -/

def stagesLeft (j : Job) : Nat :=
  match j.stage with
  | .surveying _ => 2
  | .exploring _ _ _ => 1
  | .finished | .failed | .cancelled => 0

/-- A bound on the units left in the current stage. -/
def stageWork (j : Job) : Nat :=
  match j.stage with
  | .surveying s => s.work
  | .exploring _ _ s => s.work
  | .finished | .failed | .cancelled => 0

/-- A job is closer to its end if it has fewer stages ahead, or less work in the same stage. -/
def Closer (k j : Job) : Prop :=
  k.stagesLeft < j.stagesLeft ∨ (k.stagesLeft = j.stagesLeft ∧ k.stageWork < j.stageWork)

theorem Closer.trans {i j k : Job} (h : Closer k j) (g : Closer j i) : Closer k i := by
  unfold Closer at *
  omega

theorem handOver_eq_or_lt (j : Job) :
    j.handOver.1 = j ∨ j.handOver.1.stagesLeft < j.stagesLeft := by
  unfold handOver
  split
  · rename_i s hs
    split
    · right
      unfold closeSurvey fail
      split <;> simp [stagesLeft, hs]
    · exact Or.inl rfl
  · rename_i found report s hs
    split
    · right
      unfold closeTerritory fail succeed
      split <;> simp [stagesLeft, hs]
    · exact Or.inl rfl
  all_goals exact Or.inl rfl

/-- Every turn of an unfinished job with something to spend brings it closer to its end. -/
theorem closer_turn {b : Allowance} {j : Job} (hb : 0 < b.maxUnits) (hj : j.isDone = false) :
    Closer (j.turn b).job j := by
  unfold turn
  cases hs : j.stage with
  | surveying s =>
    cases hd : s.isDone with
    | true =>
      have h : j.spend b = (0, j) := by
        have h0 := Stepwise.step_of_done (b := b) (s := s) hd
        cases j; simp_all [spend]
      have h2 : j.handOver = j.closeSurvey s.outcome := by simp [handOver, hs, hd]
      left
      simp only [h, h2]
      unfold closeSurvey fail
      split <;> simp [stagesLeft, hs]
    | false =>
      have hw := Stepwise.work_step (s := s) hb hd
      have h1 : (j.spend b).2.stagesLeft = 2 := by simp [spend, hs, stagesLeft]
      have h2 : (j.spend b).2.stageWork < j.stageWork := by
        simp only [spend, hs, stageWork]; exact hw
      have h3 : j.stagesLeft = 2 := by simp [stagesLeft, hs]
      rcases handOver_eq_or_lt (j.spend b).2 with h | h
      · right; simp only [h]; exact ⟨h1.trans h3.symm, h2⟩
      · left; simp only; omega
  | exploring found report s =>
    cases hd : s.isDone with
    | true =>
      have h : j.spend b = (0, j) := by
        have h0 := Stepwise.step_of_done (b := b) (s := s) hd
        cases j; simp_all [spend]
      have h2 : j.handOver = j.closeTerritory found report s := by simp [handOver, hs, hd]
      left
      simp only [h, h2]
      unfold closeTerritory fail succeed
      split <;> simp [stagesLeft, hs]
    | false =>
      have hw := Stepwise.work_step (s := s) hb hd
      have h1 : (j.spend b).2.stagesLeft = 1 := by simp [spend, hs, stagesLeft]
      have h2 : (j.spend b).2.stageWork < j.stageWork := by
        simp only [spend, hs, stageWork]; exact hw
      have h3 : j.stagesLeft = 1 := by simp [stagesLeft, hs]
      rcases handOver_eq_or_lt (j.spend b).2 with h | h
      · right; simp only [h]; exact ⟨h1.trans h3.symm, h2⟩
      · left; simp only; omega
  | finished => simp [isDone, phase, hs, JobPhase.isTerminal] at hj
  | failed => simp [isDone, phase, hs, JobPhase.isTerminal] at hj
  | cancelled => simp [isDone, phase, hs, JobPhase.isTerminal] at hj

theorem remaining_pos {b : Allowance} {used : Nat} (h : b.allows used = true) :
    0 < (b.remaining used).maxUnits := Nat.sub_pos_of_lt (Allowance.lt_of_allows h)

/-- Take turns until the job is done or the allowance is spent, starting with `used` spent.  The
deadline is looked at anew in every turn. -/
def stepFrom (b : Allowance) (used : Nat) (j : Job) : JobStep :=
  if j.isDone = false ∧ b.allows used = true then
    let t := j.turn (b.remaining used)
    let rest := stepFrom b (used + t.used) t.job
    { rest with notices := t.notices ++ rest.notices }
  else { used, job := j, notices := [] }
termination_by (j.stagesLeft, j.stageWork)
decreasing_by
  rename_i h
  rw [Prod.lex_def]
  exact closer_turn (remaining_pos h.2) h.1

def step (b : Allowance) (j : Job) : JobStep := stepFrom b 0 j

end Job

end Signalbox
