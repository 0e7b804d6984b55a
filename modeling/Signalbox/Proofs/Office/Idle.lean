import Signalbox.Office.Desk
import Signalbox.Proofs.Build.Effort

/-!
# Builds come to their end

However builds are stepped, and whatever the deadlines, they are over after no more steps than they
have units, and so is whoever steps them in a loop: a build in one go, and a desk that ticks until it
is idle.

* `Desk.isIdle_runToIdle`, `Desk.ticks_le` : a desk becomes idle, and when;
* `Job.ends_after_effort` : how much work a build is, and that it ends.
-/

set_option autoImplicit false

namespace Signalbox

namespace Desk

variable {b : Allowance} {now : Timestamp} {d : Desk}

/-- **A desk that is ticked until it is idle becomes idle.** -/
theorem isIdle_runToIdle (hb : 0 < b.maxUnits) (now : Timestamp) (d : Desk) :
    (d.runToIdle b now).1.isIdle = true := by
  fun_induction runToIdle b now d with
  | case1 d h t rest ih => exact ih
  | case2 d h =>
    cases hd : d.isIdle with
    | true => rfl
    | false => exact absurd ⟨hd, hb⟩ h

/-- A tick takes a unit at least from every build that it does not end. -/
theorem cost_lt_of_tick (hb : 0 < b.maxUnits) {n : Nat}
    (bound : ∀ p ∈ d.jobs.toList, p.2.cost < n + 1) :
    ∀ p ∈ (d.tick b now).1.jobs.toList, p.2.cost < n := by
  intro q hq
  rw [jobs_tick, List.mem_filterMap] at hq
  obtain ⟨p, hp, hq⟩ := hq
  obtain ⟨j, still, rfl⟩ := Option.map_eq_some_iff.1 hq
  have before := bound p hp
  unfold stillOpen at still
  split at still
  · cases still
  · rename_i busy
    cases still
    rcases Job.isDone_or_cost_lt hb p.2 with done | less
    · exact absurd done busy
    · show (p.2.step b).job.cost < n
      omega

/-- **A desk is idle after as many ticks as its builds have units.** -/
theorem ticks_le (hb : 0 < b.maxUnits) {n : Nat} (bound : ∀ p ∈ d.jobs.toList, p.2.cost < n) :
    (d.runToIdle b now).2.length ≤ n := by
  induction n generalizing d with
  | zero =>
    have none : d.jobs.toList = [] :=
      List.eq_nil_iff_forall_not_mem.2 fun p hp => absurd (bound p hp) (Nat.not_lt_zero _)
    have idle : d.isIdle = true := by
      rw [isIdle, ← Std.ExtTreeMap.isEmpty_toList, none]
      rfl
    rw [runToIdle, if_neg (by simp [idle])]
    exact Nat.le_refl 0
  | succ n ih =>
    rw [runToIdle]
    split
    · exact Nat.succ_le_succ (ih (cost_lt_of_tick hb bound))
    · exact Nat.zero_le _

end Desk

/-- **How much work a build is.**  The units of a build are known from its markers and its track.
Without deadlines a job that is not cancelled reports all the units that it was given, up to these.
Whatever the deadlines, every job is done after more steps than it has units if each of them may use
one; so a job that is stepped until it is done gets there, and a desk that ticks until it is idle
becomes idle.  A turn that uses nothing goes on to the next phase, so no step gives up on an
unfinished job. -/
theorem Job.ends_after_effort (c : BuildSettings) (t : Host) (ms : MarkerRoll) (r : RegionId)
    (scope : SurveyScope) :
    ∃ total, Job.Effort c t ms r scope total ∧
      (∀ bs : List Allowance, (∀ b ∈ bs, b.deadline = none) →
        ((Job.start c t ms r scope).after bs).status.processed =
          min (bs.map Allowance.maxUnits).sum total) ∧
      (∀ bs : List Allowance, (∀ b ∈ bs, 0 < b.maxUnits) → total < bs.length →
        ((Job.start c t ms r scope).after bs).isDone = true) ∧
      ∀ b : Allowance, 0 < b.maxUnits →
        (∀ j : Job, j.isDone = false →
          (∃ last, (j.run b).getLast? = some last ∧ last.job.isDone = true) ∧
          ((j.turn b).used = 0 → (j.turn b).job.phase ≠ j.phase)) ∧
        ∀ (d : Desk) (now : Timestamp), (d.runToIdle b now).1.isIdle = true ∧
          ∀ n, (∀ p ∈ d.jobs.toList, p.2.cost < n) → (d.runToIdle b now).2.length ≤ n := by
  refine ⟨_, Job.effort_start c t ms r scope, ?reported, ?ended, ?loops⟩
  case reported =>
    intro bs undated
    exact (Job.processed_after undated _).trans (Nat.zero_add _)
  case ended => exact fun bs granted long => Job.isDone_after granted long
  case loops =>
    intro b hb
    refine ⟨fun j busy => ⟨Job.isDone_run hb busy, Job.phase_turn_ne hb busy⟩, fun d now => ?_⟩
    exact ⟨Desk.isIdle_runToIdle hb now d, fun n bound => Desk.ticks_le hb bound⟩

/-- Two stations on a line are nine units of work, so ten steps end their build although every deadline
is over.  Where nothing was found there is no territory to take, and a turn that uses nothing ends the
job. -/
theorem Job.ends_after_effort_line :
    let line := (Track.empty.insert ⟨0, 64, 0⟩).insert ⟨1, 64, 0⟩ |>.insert ⟨2, 64, 0⟩
    let station (name : String) (x : Int32) : Marker := ⟨⟨name⟩, .station, ⟨x, 65, 0⟩, none, none⟩
    let roll := MarkerRoll.empty.extend ⟨"main"⟩ [station "A" 0, station "B" 2]
    let job := Job.start {} line roll ⟨"main"⟩ .whole
    let bare := job.explore [] (Roster.empty.report 0 0 none)
    let late := Allowance.upTo Allowance.past
    (job.after [.units 4, .units 3]).status.processed = 7 ∧
      (job.after (List.replicate 10 late)).isDone = true ∧
      (∃ last, (job.run late).getLast? = some last ∧ last.job.isDone = true) ∧
      (bare.turn late).job.phase ≠ bare.phase ∧
      (({ track := line, markers := roll, settings := {} } : Desk).runToIdle late ⟨0⟩).2.length ≤ 0 := by
  intro line station roll job bare late
  obtain ⟨total, -, reported, ended, loops⟩ :=
    Job.ends_after_effort {} line roll ⟨"main"⟩ .whole
  obtain ⟨stepped, ticked⟩ := loops late (by decide)
  have nine : job.cost = 9 := by decide +kernel
  have least : total = 9 := by
    have undated : ∀ b ∈ [Allowance.units 100], b.deadline = none := by simp [Allowance.units]
    have all : (job.after [.units 100]).processed = min 100 total := reported _ undated
    have same : (job.after [.units 100]).processed = 0 + min 100 job.cost :=
      Job.processed_after undated job
    omega
  refine ⟨?_, ended _ ?_ ?_, (stepped job rfl).1, ?_, ?_⟩
  · rw [reported _ (by simp [Allowance.units]), least]
    rfl
  · intro b hb
    rw [List.eq_of_mem_replicate hb]
    decide
  · rw [List.length_replicate, least]
    decide
  · exact (stepped bare (by decide +kernel)).2 (by decide +kernel)
  · exact (ticked _ _).2 0 (by simp)

end Signalbox
