import Signalbox.Build.Blocking
import Signalbox.Proofs.Stepwise

/-!
# Builds do not depend on how they are stepped

A job can be suspended after any unit of work, also between two stages.  What it still has to tell
when it is driven to its end (`Job.conclude`) is the same before and after every step, up to what
the step itself told.  Hence two schedules that both bring a job to its end are told the same, in
the same order, and a build in one go yields the same as well.

* `Job.conclude_turn`, `Job.conclude_step` : what one turn and one step leave to be told;
* `Job.told_eq_of_isDone` : what any finishing schedule is told;
* `Job.schedule_irrelevant` : two finishing schedules and the build in one go agree.
-/

set_option autoImplicit false

namespace Signalbox

namespace Job

/-! ## Stages run to their end -/

/-- Whether the current stage is through. -/
def isRipe (j : Job) : Bool :=
  match j.stage with
  | .surveying s => s.isDone
  | .exploring _ _ s => s.isDone
  | .finished | .failed | .cancelled => true

/-- How many units the current stage still takes. -/
def stageCost (j : Job) : Nat :=
  match j.stage with
  | .surveying s => Stepwise.cost s
  | .exploring _ _ s => Stepwise.cost s
  | .finished | .failed | .cancelled => 0

/-- The job with its current stage run to the end. -/
def ripe (j : Job) : Job :=
  match j.stage with
  | .surveying s =>
    { j with stage := .surveying (Stepwise.finished s), processed := j.processed + Stepwise.cost s }
  | .exploring found report s =>
    { j with
      stage := .exploring found report (Stepwise.finished s)
      processed := j.processed + Stepwise.cost s }
  | .finished | .failed | .cancelled => j

theorem ripe_of_isRipe {j : Job} (h : j.isRipe = true) : j.ripe = j := by
  obtain ⟨region, settings, track, stage, processed⟩ := j
  cases stage with
  | surveying s =>
    have hd : Stepwise.isDone s = true := h
    simp only [ripe, Stepwise.finished_of_done hd, Stepwise.cost_of_done hd, Nat.add_zero]
  | exploring found report s =>
    have hd : Stepwise.isDone s = true := h
    simp only [ripe, Stepwise.finished_of_done hd, Stepwise.cost_of_done hd, Nat.add_zero]
  | finished => rfl
  | failed => rfl
  | cancelled => rfl

theorem isRipe_ripe (j : Job) : j.ripe.isRipe = true := by
  obtain ⟨region, settings, track, stage, processed⟩ := j
  cases stage with
  | surveying s => exact Stepwise.isDone_finished s
  | exploring found report s => exact Stepwise.isDone_finished s
  | finished => rfl
  | failed => rfl
  | cancelled => rfl

theorem isDone_ripe (j : Job) : j.ripe.isDone = j.isDone := by
  obtain ⟨region, settings, track, stage, processed⟩ := j
  cases stage <;> rfl

theorem stagesLeft_ripe (j : Job) : j.ripe.stagesLeft = j.stagesLeft := by
  obtain ⟨region, settings, track, stage, processed⟩ := j
  cases stage <;> rfl

theorem ripe_spend (b : Allowance) (j : Job) : (j.spend b).2.ripe = j.ripe := by
  obtain ⟨region, settings, track, stage, processed⟩ := j
  cases stage with
  | surveying s =>
    have h := Stepwise.cost_step b s
    simp only [spend, ripe, Stepwise.finished_step, Nat.add_assoc, h]
  | exploring found report s =>
    have h := Stepwise.cost_step b s
    simp only [spend, ripe, Stepwise.finished_step, Nat.add_assoc, h]
  | finished => rfl
  | failed => rfl
  | cancelled => rfl

theorem isDone_spend (b : Allowance) (j : Job) : (j.spend b).2.isDone = j.isDone := by
  rw [← isDone_ripe, ripe_spend, isDone_ripe]

theorem handOver_of_not_isRipe {j : Job} (h : j.isRipe = false) : j.handOver = (j, []) := by
  obtain ⟨region, settings, track, stage, processed⟩ := j
  cases stage with
  | surveying s =>
    have hd : s.isDone = false := h
    simp [handOver, hd]
  | exploring found report s =>
    have hd : s.isDone = false := h
    simp [handOver, hd]
  | finished => cases h
  | failed => cases h
  | cancelled => cases h

theorem stagesLeft_handOver {j : Job} (hr : j.isRipe = true) (hd : j.isDone = false) :
    j.handOver.1.stagesLeft < j.stagesLeft := by
  obtain ⟨region, settings, track, stage, processed⟩ := j
  cases stage with
  | surveying s =>
    have h : s.isDone = true := hr
    simp only [handOver, h, if_true]
    unfold closeSurvey fail
    split <;> simp [stagesLeft]
  | exploring found report s =>
    have h : s.isDone = true := hr
    simp only [handOver, h, if_true]
    unfold closeTerritory fail succeed
    split <;> simp [stagesLeft]
  | finished => cases hd
  | failed => cases hd
  | cancelled => cases hd

/-! ## What a job comes to -/

/-- The job when it is driven to its end, and what it still tells on the way. -/
def conclude (j : Job) : Job × List Notice :=
  if j.isDone = true then (j, [])
  else
    let handed := j.ripe.handOver
    let rest := conclude handed.1
    (rest.1, handed.2 ++ rest.2)
termination_by j.stagesLeft
decreasing_by
  rename_i h
  rw [← stagesLeft_ripe j]
  exact stagesLeft_handOver (isRipe_ripe j) (by rw [isDone_ripe]; simpa using h)

theorem conclude_of_isDone {j : Job} (h : j.isDone = true) : j.conclude = (j, []) := by
  rw [conclude, if_pos h]

theorem conclude_of_not_isDone {j : Job} (h : j.isDone = false) :
    j.conclude = ((j.ripe.handOver.1).conclude.1,
      j.ripe.handOver.2 ++ (j.ripe.handOver.1).conclude.2) := by
  rw [conclude, if_neg (by simp [h])]

theorem turn_used (b : Allowance) (j : Job) : (j.turn b).used = (j.spend b).1 := rfl

theorem turn_job (b : Allowance) (j : Job) : (j.turn b).job = (j.spend b).2.handOver.1 := rfl

theorem turn_notices (b : Allowance) (j : Job) :
    (j.turn b).notices = (j.spend b).2.handOver.2 := rfl

theorem turn_of_isDone (b : Allowance) {j : Job} (h : j.isDone = true) : j.turn b = ⟨0, j, []⟩ := by
  obtain ⟨region, settings, track, stage, processed⟩ := j
  cases stage with
  | surveying s => cases h
  | exploring found report s => cases h
  | finished => rfl
  | failed => rfl
  | cancelled => rfl

/-- One turn tells the first part of what the job has to tell, and leaves the rest. -/
theorem conclude_turn (b : Allowance) (j : Job) :
    j.conclude = ((j.turn b).job.conclude.1, (j.turn b).notices ++ (j.turn b).job.conclude.2) := by
  cases hd : j.isDone with
  | true => rw [turn_of_isDone b hd, conclude_of_isDone hd, List.nil_append]
  | false =>
    have spent := ripe_spend b j
    have done := (isDone_spend b j).trans hd
    rw [turn_job, turn_notices, conclude_of_not_isDone hd, ← spent]
    cases hr : (j.spend b).2.isRipe with
    | true => rw [ripe_of_isRipe hr]
    | false => rw [handOver_of_not_isRipe hr, List.nil_append, conclude_of_not_isDone done]

theorem conclude_stepFrom (b : Allowance) (used : Nat) (j : Job) :
    j.conclude = ((stepFrom b used j).job.conclude.1,
      (stepFrom b used j).notices ++ (stepFrom b used j).job.conclude.2) := by
  fun_induction stepFrom b used j with
  | case1 used j h t rest ih =>
    rw [conclude_turn (b.remaining used) j, ih]
    simp only [List.append_assoc]
    rfl
  | case2 used j h => rfl

theorem conclude_step (b : Allowance) (j : Job) :
    j.conclude = ((j.step b).job.conclude.1, (j.step b).notices ++ (j.step b).job.conclude.2) :=
  conclude_stepFrom b 0 j

/-! ## The units of a build -/

/-- How many units it takes to drive the job to its end. -/
def cost (j : Job) : Nat :=
  if j.isDone = true then 0 else j.stageCost + cost j.ripe.handOver.1
termination_by j.stagesLeft
decreasing_by
  rename_i h
  rw [← stagesLeft_ripe j]
  exact stagesLeft_handOver (isRipe_ripe j) (by rw [isDone_ripe]; simpa using h)

theorem cost_of_not_isDone {j : Job} (h : j.isDone = false) :
    j.cost = j.stageCost + j.ripe.handOver.1.cost := by
  rw [cost, if_neg (by simp [h])]

theorem stageCost_of_isRipe {j : Job} (h : j.isRipe = true) : j.stageCost = 0 := by
  obtain ⟨region, settings, track, stage, processed⟩ := j
  cases stage with
  | surveying s => exact Stepwise.cost_of_done h
  | exploring found report s => exact Stepwise.cost_of_done h
  | finished => rfl
  | failed => rfl
  | cancelled => rfl

theorem stageCost_spend (b : Allowance) (j : Job) :
    (j.spend b).1 + (j.spend b).2.stageCost = j.stageCost := by
  obtain ⟨region, settings, track, stage, processed⟩ := j
  cases stage with
  | surveying s => exact Stepwise.cost_step b s
  | exploring found report s => exact Stepwise.cost_step b s
  | finished => rfl
  | failed => rfl
  | cancelled => rfl

/-- The units that a turn uses are those by which the job gets nearer to its end. -/
theorem cost_turn (b : Allowance) (j : Job) : (j.turn b).used + (j.turn b).job.cost = j.cost := by
  cases hd : j.isDone with
  | true => rw [turn_of_isDone b hd, Nat.zero_add]
  | false =>
    have spent := stageCost_spend b j
    have done := (isDone_spend b j).trans hd
    rw [turn_used, turn_job, cost_of_not_isDone hd, ← ripe_spend b j, ← spent]
    cases hr : (j.spend b).2.isRipe with
    | true => rw [ripe_of_isRipe hr, stageCost_of_isRipe hr, Nat.add_zero]
    | false => rw [handOver_of_not_isRipe hr, cost_of_not_isDone done, Nat.add_assoc]

theorem cost_stepFrom (b : Allowance) (used : Nat) (j : Job) :
    (stepFrom b used j).used + (stepFrom b used j).job.cost = used + j.cost := by
  fun_induction stepFrom b used j with
  | case1 used j h t rest ih =>
    have turned : t.used + t.job.cost = j.cost := cost_turn (b.remaining used) j
    exact ih.trans (by omega)
  | case2 used j h => rfl

theorem cost_step (b : Allowance) (j : Job) : (j.step b).used + (j.step b).job.cost = j.cost := by
  rw [step, cost_stepFrom, Nat.zero_add]

theorem stepFrom_of_deadline_none {b : Allowance} (hb : b.deadline = none) (used : Nat) (j : Job) :
    (stepFrom b used j).job.isDone = true ∨ b.maxUnits ≤ (stepFrom b used j).used := by
  fun_induction stepFrom b used j with
  | case1 used j h t rest ih => exact ih
  | case2 used j h =>
    rw [Allowance.allows_of_deadline_none hb, decide_eq_true_eq] at h
    cases hd : j.isDone with
    | true => exact Or.inl rfl
    | false => exact Or.inr (Nat.not_lt.1 fun hu => h ⟨hd, hu⟩)

/-- Without a deadline, units to spare finish the job in one step. -/
theorem isDone_step {b : Allowance} (hb : b.deadline = none) {j : Job} (h : j.cost < b.maxUnits) :
    (j.step b).job.isDone = true := by
  rcases stepFrom_of_deadline_none hb 0 j with hd | hu
  · exact hd
  · have hc := cost_step b j
    unfold step at hc ⊢
    omega

/-! ## Schedules -/

/-- The job after one step for each allowance. -/
def after (bs : List Allowance) (j : Job) : Job := bs.foldl (fun j b => (j.step b).job) j

/-- What the job tells during one step for each allowance. -/
def told (bs : List Allowance) (j : Job) : List Notice :=
  match bs with
  | [] => []
  | b :: bs => (j.step b).notices ++ told bs (j.step b).job

theorem conclude_after (bs : List Allowance) (j : Job) :
    j.conclude = ((j.after bs).conclude.1, j.told bs ++ (j.after bs).conclude.2) := by
  induction bs generalizing j with
  | nil => rfl
  | cons b bs ih =>
    rw [conclude_step b j, ih (j.step b).job, told, List.append_assoc]
    rfl

/-- **A schedule that brings a job to its end is told all that the job has to tell.** -/
theorem told_eq_of_isDone {bs : List Allowance} {j : Job} (h : (j.after bs).isDone = true) :
    j.told bs = j.conclude.2 := by
  rw [conclude_after bs j, conclude_of_isDone h, List.append_nil]

theorem after_eq_of_isDone {bs : List Allowance} {j : Job} (h : (j.after bs).isDone = true) :
    j.after bs = j.conclude.1 := by
  rw [conclude_after bs j, conclude_of_isDone h]

/-- What any schedule is told is the first part of what the job has to tell. -/
theorem told_isPrefix (bs : List Allowance) (j : Job) : j.told bs <+: j.conclude.2 := by
  rw [conclude_after bs j]
  exact List.prefix_append _ _

/-- A build in one go is told all that the job has to tell. -/
theorem runNotices_eq {b : Allowance} (hb : 0 < b.maxUnits) (j : Job) :
    j.runNotices b = j.conclude.2 := by
  unfold runNotices
  fun_induction run b j with
  | case1 j h ih => rw [List.flatMap_cons, ih, conclude_step b j]
  | case2 j h =>
    have hd : j.isDone = true := by simpa [hb] using h
    rw [conclude_of_isDone hd, List.flatMap_nil]

/-! ## The end of a build -/

/-- What a job tells that fails. -/
def failureNotices (r : RegionId) (e : BuildFault) : List Notice :=
  [.released r, .phase r .failed, .failure r e]

/-- What a job tells that has built a network. -/
def successNotices (built : BuiltRegion) : List Notice :=
  [.released built.region, .phase built.region .finished, .success built]

/-- The job that goes on from a finished survey. -/
def explore (j : Job) (found : List Site) (report : SurveyReport) : Job :=
  { j with stage := .exploring found report (.start j.host.laid found) }

theorem isDone_closeTerritory (j : Job) (found : List Site) (report : SurveyReport)
    (s : Territory) : (j.closeTerritory found report s).1.isDone = true := by
  unfold closeTerritory
  split <;> rfl

theorem conclude_exploring {j : Job} {found : List Site} {report : SurveyReport} {s : Territory}
    (h : j.stage = .exploring found report s) :
    j.conclude = j.ripe.closeTerritory found report (Stepwise.finished s) := by
  have hd : j.isDone = false := by simp [isDone, phase, h, JobPhase.isTerminal]
  have hf : (Stepwise.finished s).isDone = true := Stepwise.isDone_finished s
  have stage : j.ripe.stage = .exploring found report (Stepwise.finished s) := by simp [ripe, h]
  have handed : j.ripe.handOver = j.ripe.closeTerritory found report (Stepwise.finished s) := by
    simp [handOver, stage, hf]
  rw [conclude_of_not_isDone hd, handed, conclude_of_isDone (isDone_closeTerritory _ _ _ _),
    List.append_nil]

/-- What a job comes to that surveys: it fails where it stands, or goes on to take territory. -/
theorem conclude_surveying {j : Job} {s : Survey} (h : j.stage = .surveying s) :
    j.conclude =
      match (Stepwise.finished s).outcome with
      | .noStart _ => j.ripe.fail (.noStartCell j.region)
      | .nodes found report =>
        (((j.ripe.explore found report).conclude).1,
          .phase j.region .exploring :: ((j.ripe.explore found report).conclude).2) := by
  have hd : j.isDone = false := by simp [isDone, phase, h, JobPhase.isTerminal]
  have hf : (Stepwise.finished s).isDone = true := Stepwise.isDone_finished s
  have stage : j.ripe.stage = .surveying (Stepwise.finished s) := by simp [ripe, h]
  have region : j.ripe.region = j.region := by simp [ripe, h]
  have handed : j.ripe.handOver = j.ripe.closeSurvey (Stepwise.finished s).outcome := by
    simp [handOver, stage, hf]
  rw [conclude_of_not_isDone hd, handed]
  unfold closeSurvey
  cases (Stepwise.finished s).outcome with
  | noStart report =>
    have failed : (j.ripe.fail (.noStartCell j.region)).1.isDone = true := rfl
    simp only [region, conclude_of_isDone failed, List.append_nil]
  | nodes found report => simp only [explore, region, List.singleton_append]

theorem closeTerritory_notices (j : Job) (found : List Site) (report : SurveyReport)
    (s : Territory) :
    (∃ e, (j.closeTerritory found report s).2 = failureNotices j.region (.assembly e)) ∨
      ∃ built, built.region = j.region ∧
        (j.closeTerritory found report s).2 = successNotices built := by
  unfold closeTerritory
  split
  · rename_i e _
    exact Or.inl ⟨e, rfl⟩
  · rename_i g _
    exact Or.inr ⟨⟨j.region, g, _, report, j.processed⟩, rfl, rfl⟩

theorem result_exploring {j : Job} {found : List Site} {report : SurveyReport} {s : Territory}
    (h : j.stage = .exploring found report s) :
    ∃ result, j.conclude.2.filterMap Notice.result? = [result] ∧
      ∀ built, result = .ok built → built.region = j.region := by
  have region : j.ripe.region = j.region := by simp [ripe, h]
  rw [conclude_exploring h]
  rcases closeTerritory_notices j.ripe found report (Stepwise.finished s) with
    ⟨e, he⟩ | ⟨built, hb, he⟩
  · exact ⟨.error (.assembly e), by rw [he]; rfl, by simp⟩
  · refine ⟨.ok built, by rw [he]; rfl, ?_⟩
    rintro b ⟨⟩
    rw [hb, region]

/-- **Every build comes to one result**, which names the region of the job. -/
theorem result_conclude {j : Job} (h : j.isDone = false) :
    ∃ result, j.conclude.2.filterMap Notice.result? = [result] ∧
      ∀ built, result = .ok built → built.region = j.region := by
  cases hs : j.stage with
  | surveying s =>
    rw [conclude_surveying hs]
    cases (Stepwise.finished s).outcome with
    | noStart report => exact ⟨.error (.noStartCell j.region), rfl, by simp⟩
    | nodes found report =>
      have region : (j.ripe.explore found report).region = j.region := by
        simp [explore, ripe, hs]
      -- the notice of the new phase carries no result
      show ∃ result, (j.ripe.explore found report).conclude.2.filterMap Notice.result? = [result] ∧
        ∀ built, result = .ok built → built.region = j.region
      rw [← region]
      exact result_exploring rfl
  | exploring found report s => exact result_exploring hs
  | finished => simp [isDone, phase, hs, JobPhase.isTerminal] at h
  | failed => simp [isDone, phase, hs, JobPhase.isTerminal] at h
  | cancelled => simp [isDone, phase, hs, JobPhase.isTerminal] at h

/-- **Schedules are irrelevant.**  Two schedules that both bring the build of a region to its end
are told the same and leave the same job, and they tell one result, which the build in one go yields
as well, except that a network without nodes is a failure there. -/
theorem schedule_irrelevant {c : BuildSettings} (usable : c.check = .ok ()) (t : Host)
    (ms : MarkerRoll) (r : RegionId) (scope : SurveyScope) {bs cs : List Allowance}
    (hb : ((start c t ms r scope).after bs).isDone = true)
    (hc : ((start c t ms r scope).after cs).isDone = true) :
    (start c t ms r scope).told bs = (start c t ms r scope).told cs ∧
      (start c t ms r scope).after bs = (start c t ms r scope).after cs ∧
      ∃ result, ((start c t ms r scope).told bs).filterMap Notice.result? = [result] ∧
        buildRegion c t ms r scope =
          match result with
          | .error e => .error e
          | .ok built => if built.network.isEmpty then .error (.noNodes r) else .ok built := by
  obtain ⟨result, hres, hreg⟩ := result_conclude (j := start c t ms r scope) rfl
  rw [told_eq_of_isDone hb, told_eq_of_isDone hc, after_eq_of_isDone hb, after_eq_of_isDone hc]
  refine ⟨rfl, rfl, result, hres, ?_⟩
  have first : (start c t ms r scope).conclude.2.findSome? Notice.result? = some result := by
    rw [← List.head?_filterMap, hres, List.head?_cons]
  unfold buildRegion
  rw [usable, runNotices_eq (by decide), first]
  cases result with
  | error e => rfl
  | ok built =>
    have region : built.region = r := hreg built rfl
    simp only [region]

/-- Two stations on a line: four units first, then what fits before a deadline that is over, and
then the rest, or everything at once. -/
theorem schedule_irrelevant_line :
    let line := (Track.empty.insert ⟨0, 64, 0⟩).insert ⟨1, 64, 0⟩ |>.insert ⟨2, 64, 0⟩
    let station (name : String) (x : Int32) : Marker := ⟨⟨name⟩, .station, ⟨x, 65, 0⟩, none, none⟩
    let roll := MarkerRoll.empty.extend ⟨"main"⟩ [station "A" 0, station "B" 2]
    let job := start {} line roll ⟨"main"⟩ .whole
    let bs := [.units 4, (Allowance.units 32).withDeadline Allowance.past, .units 100]
    let cs := [.units 100]
    ({} : BuildSettings).check = .ok () ∧ (job.after bs).isDone = true ∧
      (job.after cs).isDone = true ∧ job.told bs = job.told cs ∧ job.after bs = job.after cs := by
  intro line station roll job bs cs
  have usable : ({} : BuildSettings).check = .ok () := rfl
  have total : job.cost = 9 := by decide +kernel
  have hc : (job.after cs).isDone = true := isDone_step rfl (by rw [total]; decide)
  have hb : (job.after bs).isDone = true := by
    let first := (job.step (.units 4)).job
    let second := (first.step ((Allowance.units 32).withDeadline Allowance.past)).job
    have h1 : _ + first.cost = job.cost := cost_step _ job
    have h2 : _ + second.cost = first.cost := cost_step _ first
    have spare : second.cost < (Allowance.units 100).maxUnits := by
      have hundred : (Allowance.units 100).maxUnits = 100 := rfl
      omega
    exact isDone_step rfl spare
  obtain ⟨told, after, -⟩ := schedule_irrelevant usable line roll ⟨"main"⟩ .whole hb hc
  exact ⟨usable, hb, hc, told, after⟩

end Job

end Signalbox
