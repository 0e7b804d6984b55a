import Signalbox.Build.Job

/-!
# Builds in one go

A job may be stepped until it is done, with the same allowance in every step; every step of an
unfinished job brings it closer to its end, so that this comes to an end.  Run at once and without
limits, without giving way to anything else, a build in which nothing is found is a failure.
-/

set_option autoImplicit false

namespace Signalbox

namespace Job

theorem stepFrom_eq_or_closer (b : Allowance) (used : Nat) (j : Job) :
    (stepFrom b used j).job = j ∨ Closer (stepFrom b used j).job j := by
  fun_induction stepFrom b used j with
  | case1 used j h t rest ih =>
    right
    have ht : Closer t.job j := closer_turn (remaining_pos h.2) h.1
    rcases ih with ih | ih
    · exact (congrArg (Closer · j) ih).mpr ht
    · exact ih.trans ht
  | case2 => exact Or.inl rfl

/-- Every step of an unfinished job with something to spend brings it closer to its end. -/
theorem closer_step {b : Allowance} {j : Job} (hb : 0 < b.maxUnits) (hj : j.isDone = false) :
    Closer (j.step b).job j := by
  have ha : b.allows 0 = true := by simp [Allowance.allows_zero, hb]
  unfold step
  rw [stepFrom, if_pos ⟨hj, ha⟩]
  have ht : Closer (j.turn (b.remaining 0)).job j := closer_turn (remaining_pos ha) hj
  rcases stepFrom_eq_or_closer b (0 + (j.turn (b.remaining 0)).used) (j.turn (b.remaining 0)).job
    with h | h
  · simp only [h]; exact ht
  · exact h.trans ht

/-- Step the job with the same allowance until it is done, keeping every step. -/
def run (b : Allowance) (j : Job) : List JobStep :=
  if j.isDone = false ∧ 0 < b.maxUnits then j.step b :: run b (j.step b).job else []
termination_by (j.stagesLeft, j.stageWork)
decreasing_by
  rename_i h
  rw [Prod.lex_def]
  exact closer_step h.2 h.1

/-- The notices given while a job is stepped to its end. -/
def runNotices (b : Allowance) (j : Job) : List Notice := (j.run b).flatMap JobStep.notices

end Job

/-- Build the network of a region in one go. -/
def buildRegion (c : BuildSettings) (h : Host) (ms : MarkerRoll) (r : RegionId)
    (scope : SurveyScope) : Except BuildFault BuiltRegion :=
  match c.check with
  | .error e => .error (.settings e)
  | .ok () =>
    match ((Job.start c h ms r scope).runNotices .unbounded).findSome? Notice.result? with
    | none => .error (.noNodes r)
    | some (.error e) => .error e
    | some (.ok built) =>
      if built.network.isEmpty then .error (.noNodes built.region) else .ok built

end Signalbox
