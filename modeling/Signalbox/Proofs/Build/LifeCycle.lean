import Signalbox.Proofs.Build.Local
import Signalbox.Proofs.Build.Notices

/-!
# The life of a job

Whatever is done to a job, and whenever it is cancelled, it only ever tells the first part of one
script.  A job that finds no cell to start from fails; every other job takes territory, is finished
and yields a network, since what a survey finds can always be assembled.  The units that a job
reports are those that its steps have used, and nothing happens to a job that is done.

* `Job.drive`          : a job under any calls;
* `Job.conclude_start` : the script of a job;
* `Job.life_cycle`     : what a job tells, what it reports, and how it rests.
-/

set_option autoImplicit false

namespace Signalbox

/-- What an observer hears of some notices: all but the releases. -/
def Notice.heard (ns : List Notice) : List Notice := ns.filter fun n => !n.isRelease

/-- There is no cell to start from: the survey is around seeds and, once its markers are merged,
neither the tool nor whoever asks gives one. -/
def Stranded (c : BuildSettings) (t : Host) (ms : MarkerRoll) (r : RegionId)
    (scope : SurveyScope) : Prop :=
  ∃ seeds, scope = .around seeds ∧ (Trace.mustered c t ms r seeds).startCells? = none

namespace Job

variable {j : Job} {b : Allowance}

/-! ## Calls -/

/-- What is done to a job from outside. -/
inductive Call where
  | step (b : Allowance)
  | cancel

/-- One call: the units it uses, the job after it, and what the job tells. -/
def Call.perform (j : Job) : Call → JobStep
  | step b => j.step b
  | cancel => { used := 0, job := j.cancel, notices := [] }

/-- Several calls in turn: the units of all of them, the job after the last one, and everything that
the job tells. -/
def drive (j : Job) : List Call → JobStep
  | [] => { used := 0, job := j, notices := [] }
  | k :: ks =>
    let first := k.perform j
    let rest := first.job.drive ks
    { used := first.used + rest.used, job := rest.job, notices := first.notices ++ rest.notices }

theorem drive_of_isDone (h : j.isDone = true) (ks : List Call) :
    j.drive ks = { used := 0, job := j, notices := [] } := by
  induction ks with
  | nil => rfl
  | cons k ks ih =>
    have first : k.perform j = { used := 0, job := j, notices := [] } := by
      cases k with
      | step b => exact step_of_isDone h b
      | cancel => simp only [Call.perform, Job.cancel, h, if_true]
    simp only [drive, first, ih, Nat.add_zero, List.append_nil]

theorem isDone_drive_of_isDone (h : j.isDone = true) (ks : List Call) :
    (j.drive ks).job.isDone = true := by
  rw [drive_of_isDone h]
  exact h

theorem isDone_drive_of_cancel {ks : List Call} (h : .cancel ∈ ks) :
    (j.drive ks).job.isDone = true := by
  induction ks generalizing j with
  | nil => cases h
  | cons k ks ih =>
    rcases List.mem_cons.1 h with rfl | h
    · exact isDone_drive_of_isDone (isDone_cancel j) ks
    · exact ih h

/-! ## The script -/

/-- **What a job tells is the first part of what it has to tell.** -/
theorem drive_isPrefix (j : Job) (ks : List Call) : (j.drive ks).notices <+: j.conclude.2 := by
  induction ks generalizing j with
  | nil => exact List.nil_prefix
  | cons k ks ih =>
    cases k with
    | step b =>
      rw [conclude_step b j]
      exact (List.prefix_append_right_inj _).2 (ih _)
    | cancel =>
      -- a cancelled job has nothing more to tell
      have silent : (j.cancel.drive ks).notices = [] := by rw [drive_of_isDone (isDone_cancel j)]
      show [] ++ (j.cancel.drive ks).notices <+: _
      rw [silent]
      exact List.nil_prefix

/-- A job that came to its end, and was never cancelled, has told all that it has to tell. -/
theorem drive_eq_conclude {ks : List Call} (uncancelled : .cancel ∉ ks)
    (done : (j.drive ks).job.isDone = true) : (j.drive ks).notices = j.conclude.2 := by
  induction ks generalizing j with
  | nil =>
    have ended : j.isDone = true := done
    rw [conclude_of_isDone ended]
    rfl
  | cons k ks ih =>
    rw [List.mem_cons, not_or] at uncancelled
    cases k with
    | step b =>
      rw [conclude_step b j]
      exact congrArg ((j.step b).notices ++ ·) (ih uncancelled.2 done)
    | cancel => exact absurd rfl uncancelled.1

/-- **The script of a job**: it fails for want of a start cell, or it yields a network. -/
theorem conclude_start (c : BuildSettings) (t : Host) (ms : MarkerRoll) (r : RegionId)
    (scope : SurveyScope) :
    (Stranded c t ms r scope ∧
      (start c t ms r scope).conclude.2 = failureNotices r (.noStartCell r)) ∨
    (¬ Stranded c t ms r scope ∧ ∃ built, built.region = r ∧
      (start c t ms r scope).conclude.2 = .phase r .exploring :: successNotices built) := by
  have named {built : BuiltRegion}
      (told : (start c t ms r scope).conclude.2 = .phase r .exploring :: successNotices built) :
      built.region = r := by
    apply region_of_mem_conclude (j := start c t ms r scope) (n := .success built)
    rw [told]
    simp [successNotices]
  cases scope with
  | whole =>
    obtain ⟨built, told, -⟩ := conclude_whole c t ms r
    refine Or.inr ⟨?_, built, named told, told⟩
    rintro ⟨seeds, around, -⟩
    cases around
  | around seeds =>
    have surveyed : Stepwise.finished (Survey.start c t ms r (.around seeds)) =
        .trace (Stepwise.finished (Trace.start c t ms r seeds)) := Survey.finished_trace _
    rcases Trace.outcome_cases c t ms r seeds with
      ⟨none, report, ends⟩ | ⟨some, found, report, ends, ids, laid⟩
    · left
      refine ⟨⟨seeds, rfl, none⟩, ?_⟩
      have outcome : (Stepwise.finished (Survey.start c t ms r (.around seeds))).outcome =
          .noStart report := by rw [surveyed, Survey.outcome, ends]
      rw [conclude_surveying (s := Survey.start c t ms r (.around seeds)) rfl, outcome]
      rfl
    · right
      refine ⟨?_, ?_⟩
      · rintro ⟨other, around, none⟩
        cases around
        exact some none
      · have outcome : (Stepwise.finished (Survey.start c t ms r (.around seeds))).outcome =
            .nodes found report := by rw [surveyed, Survey.outcome, ends]
        obtain ⟨built, told, -⟩ := conclude_found outcome ids laid
        exact ⟨built, named told, told⟩

/-! ## The units -/

theorem processed_spend (b : Allowance) (j : Job) :
    (j.spend b).2.processed = j.processed + (j.spend b).1 := by
  obtain ⟨region, settings, track, stage, processed⟩ := j
  cases stage <;> rfl

theorem processed_handOver (j : Job) : j.handOver.1.processed = j.processed := by
  unfold handOver closeSurvey closeTerritory
  repeat' split
  all_goals rfl

theorem processed_stepFrom (b : Allowance) (used : Nat) (j : Job) :
    (stepFrom b used j).job.processed + used = j.processed + (stepFrom b used j).used := by
  fun_induction stepFrom b used j with
  | case1 used j h t rest ih =>
    have turned : t.job.processed = j.processed + t.used :=
      (processed_handOver _).trans (processed_spend (b.remaining used) j)
    have later : rest.job.processed + (used + t.used) = t.job.processed + rest.used := ih
    show rest.job.processed + used = j.processed + rest.used
    omega
  | case2 used j h => rfl

theorem processed_step (b : Allowance) (j : Job) :
    (j.step b).job.processed = j.processed + (j.step b).used :=
  processed_stepFrom b 0 j

/-- **The units that a job reports** are those that its steps have used. -/
theorem processed_drive (j : Job) (ks : List Call) :
    (j.drive ks).job.processed = j.processed + (j.drive ks).used := by
  induction ks generalizing j with
  | nil => rfl
  | cons k ks ih =>
    have first : (k.perform j).job.processed = j.processed + (k.perform j).used := by
      cases k with
      | step b => exact processed_step b j
      | cancel =>
        show j.cancel.processed = j.processed
        unfold Job.cancel
        split <;> rfl
    show ((k.perform j).job.drive ks).job.processed = _ + (_ + _)
    rw [ih, first, Nat.add_assoc]

/-- Territory that tells of a network ends its job, and the network bears the units of the job. -/
theorem success_closeTerritory {found : List Site} {report : SurveyReport} {s : Territory}
    {built : BuiltRegion} (h : .success built ∈ (j.closeTerritory found report s).2) :
    built.processed = (j.closeTerritory found report s).1.processed := by
  unfold closeTerritory at *
  split at h
  · simp [fail] at h
  · simp only [succeed, List.mem_cons, List.not_mem_nil, or_false, reduceCtorEq, false_or,
      Notice.success.injEq] at h
    rw [h]
    rfl

theorem success_handOver {built : BuiltRegion} (h : .success built ∈ j.handOver.2) :
    j.handOver.1.isDone = true ∧ built.processed = j.handOver.1.processed := by
  cases hs : j.stage with
  | surveying s =>
    exfalso
    rw [handOver, hs] at h
    simp only at h
    unfold closeSurvey fail at h
    repeat' split at h
    all_goals simp at h
  | exploring found report s =>
    rw [handOver, hs] at h ⊢
    simp only at h ⊢
    split at h
    · rename_i ripe
      rw [if_pos ripe]
      exact ⟨isDone_closeTerritory j found report s, success_closeTerritory h⟩
    · cases h
  | finished => simp [handOver, hs] at h
  | failed => simp [handOver, hs] at h
  | cancelled => simp [handOver, hs] at h

theorem success_stepFrom {used : Nat} {built : BuiltRegion}
    (h : .success built ∈ (stepFrom b used j).notices) :
    (stepFrom b used j).job.isDone = true ∧
      built.processed = (stepFrom b used j).job.processed := by
  fun_induction stepFrom b used j with
  | case1 used j allowed t rest ih =>
    rcases List.mem_append.1 h with h | h
    · obtain ⟨done, units⟩ := success_handOver h
      have ended : rest = { used := used + t.used, job := t.job, notices := [] } := by
        have closed : ¬ (t.job.isDone = false ∧ b.allows (used + t.used) = true) := by
          rintro ⟨busy, -⟩
          exact Bool.false_ne_true (busy.symm.trans done)
        show stepFrom b (used + t.used) t.job = _
        rw [stepFrom, if_neg closed]
      show rest.job.isDone = true ∧ built.processed = rest.job.processed
      rw [ended]
      exact ⟨done, units⟩
    · exact ih h
  | case2 used j allowed => cases h

theorem success_step {built : BuiltRegion} (h : .success built ∈ (j.step b).notices) :
    (j.step b).job.isDone = true ∧ built.processed = (j.step b).job.processed :=
  success_stepFrom h

/-- **A network that was told of bears the units that were used.** -/
theorem success_drive {ks : List Call} {built : BuiltRegion}
    (h : .success built ∈ (j.drive ks).notices) :
    built.processed = (j.drive ks).job.processed := by
  induction ks generalizing j with
  | nil => cases h
  | cons k ks ih =>
    rcases List.mem_append.1 h with h | h
    · cases k with
      | step b =>
        obtain ⟨done, units⟩ := success_step h
        have rest : ((j.step b).job.drive ks).job = (j.step b).job := by rw [drive_of_isDone done]
        exact units.trans (congrArg Job.processed rest.symm)
      | cancel => cases h
    · exact ih h

/-! ## The life of a job -/

theorem heard_isPrefix {ns ms : List Notice} (h : ns <+: ms) : Notice.heard ns <+: Notice.heard ms :=
  h.filter _

/-- **The life of a job.**  Under any calls its observer hears the first part of a script: that it
failed for want of a start cell, exactly if there is none, or else that it takes territory, is
finished, and has built a network.  A job that is done without having been cancelled has told the
whole script.  It reports the units that its steps have used, and so does the network.  Once it is
done, or was cancelled, nothing happens to it any more. -/
theorem life_cycle (c : BuildSettings) (t : Host) (ms : MarkerRoll) (r : RegionId)
    (scope : SurveyScope) (calls : List Call) :
    let d := (start c t ms r scope).drive calls
    (∃ script,
      ((Stranded c t ms r scope ∧ script = [.phase r .failed, .failure r (.noStartCell r)]) ∨
        (¬ Stranded c t ms r scope ∧ ∃ built, built.region = r ∧
          script = [.phase r .exploring, .phase r .finished, .success built])) ∧
      Notice.heard d.notices <+: script ∧
      (d.job.status.phase.isTerminal = true → .cancel ∉ calls →
        Notice.heard d.notices = script)) ∧
    d.job.status.processed = d.used ∧
    (∀ built, .success built ∈ d.notices → built.processed = d.used) ∧
    (d.job.status.phase.isTerminal = true ∨ .cancel ∈ calls →
      ∀ later, d.job.drive later = { used := 0, job := d.job, notices := [] }) := by
  intro d
  let script := Notice.heard (start c t ms r scope).conclude.2
  have told : Notice.heard d.notices <+: script := heard_isPrefix (drive_isPrefix _ calls)
  have whole (done : d.job.status.phase.isTerminal = true) (uncancelled : .cancel ∉ calls) :
      Notice.heard d.notices = script :=
    congrArg Notice.heard (drive_eq_conclude uncancelled done)
  have units : d.job.processed = d.used := by
    rw [processed_drive]
    exact Nat.zero_add _
  refine ⟨⟨script, ?script, told, whole⟩, units, fun built h => (success_drive h).trans units,
    ?rest⟩
  case script =>
    rcases conclude_start c t ms r scope with ⟨stranded, ends⟩ | ⟨begun, built, region, ends⟩
    · exact Or.inl ⟨stranded, congrArg Notice.heard ends⟩
    · refine Or.inr ⟨begun, built, region, ?_⟩
      show Notice.heard (start c t ms r scope).conclude.2 = _
      rw [ends, ← region]
      rfl
  case rest =>
    rintro (done | cancelled) later
    · exact drive_of_isDone done later
    · exact drive_of_isDone (isDone_drive_of_cancel cancelled) later

/-- Two stations on a line: the network bears the nine units of a job that was stepped four units
first, and a job that is cancelled after those is not stepped any more. -/
theorem life_cycle_line :
    let line := (Track.empty.insert ⟨0, 64, 0⟩).insert ⟨1, 64, 0⟩ |>.insert ⟨2, 64, 0⟩
    let station (name : String) (x : Int32) : Marker := ⟨⟨name⟩, .station, ⟨x, 65, 0⟩, none, none⟩
    let roll := MarkerRoll.empty.extend ⟨"main"⟩ [station "A" 0, station "B" 2]
    let job := start {} line roll ⟨"main"⟩ .whole
    let whole : List Call := [.step (.units 4), .step (.units 100)]
    let cut : List Call := [.step (.units 4), .cancel]
    (∃ built, .success built ∈ (job.drive whole).notices ∧ built.processed = 9) ∧
      (job.drive cut).job.drive [.step .unbounded] = ⟨0, (job.drive cut).job, []⟩ := by
  intro line station roll job whole cut
  have total : job.cost = 9 := by decide +kernel
  let first := (job.step (.units 4)).job
  let last := (first.step (.units 100)).job
  have spent : _ + first.cost = job.cost := cost_step (.units 4) job
  have spent_later : _ + last.cost = first.cost := cost_step (.units 100) first
  have ended : last.isDone = true := by
    have hundred : (Allowance.units 100).maxUnits = 100 := rfl
    exact isDone_step rfl (by omega)
  have used : (job.drive whole).used = 9 := by
    have none : last.cost = 0 := by rw [cost, if_pos ended]
    show (job.step (.units 4)).used + ((first.step (.units 100)).used + 0) = 9
    omega
  obtain ⟨built, script, -⟩ := conclude_whole {} line roll ⟨"main"⟩
  have told : .success built ∈ (job.drive whole).notices := by
    have all : job.told [.units 4, .units 100] = job.conclude.2 := told_eq_of_isDone ended
    show .success built ∈ job.told [.units 4, .units 100]
    rw [all, script]
    simp [successNotices]
  obtain ⟨-, -, bears, -⟩ := life_cycle {} line roll ⟨"main"⟩ .whole whole
  obtain ⟨-, -, -, rests⟩ := life_cycle {} line roll ⟨"main"⟩ .whole cut
  exact ⟨⟨built, told, (bears built told).trans used⟩, rests (Or.inr (by simp [cut])) _⟩

end Job

end Signalbox
