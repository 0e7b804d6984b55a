import Mathlib.Logic.ExistsUnique
import Signalbox.Build.Workshop
import Signalbox.Proofs.Build.Possessions
import Signalbox.Proofs.Build.Whole
import Signalbox.Proofs.Lookup

/-!
# One build per region

A region is claimed exactly if one unfinished job or one bare claim holds it, and never do two of
them.  Every operation of a workshop lets one holder give up what it held and, perhaps, take a
region that nobody else holds (`Exclusive.assign`); that is all the invariant needs to know.  In
particular no release comes late: a holder gives its region free when it stops holding it, and
whoever has claimed the region since is left alone.

* `Workshop.Holds`                : which job or claim holds which region;
* `Workshop.holds_attempt`        : what an operation does to the holders;
* `Workshop.exclusive_after`      : the invariant of every history;
* `Workshop.not_holds_since`      : who holds nothing after a history;
* `Workshop.one_build_per_region` : who is refused, and what is free when a job tells of its end.
-/

set_option autoImplicit false

namespace Signalbox

namespace Workshop

variable {w v : Workshop}

/-! ## Holders -/

/-- Whoever may hold a region: a job or a bare claim, by its name. -/
inductive Holder where
  | job (name : String)
  | slot (name : String)
deriving DecidableEq

/-- A job holds its region until it is done, and a bare claim holds what it claims. -/
def Holds (w : Workshop) (r : RegionId) : Holder → Prop
  | .job name => ∃ j, w.jobs[name]? = some j ∧ j.region = r ∧ j.isDone = false
  | .slot name => w.slots[name]? = some r

/-- What is claimed is held, by one holder only. -/
structure Exclusive (w : Workshop) : Prop where
  active_iff : ∀ r, w.possessions.isActive r = true ↔ ∃ h, w.Holds r h
  unique : ∀ r h k, w.Holds r h → w.Holds r k → h = k

/-- **A change of hands.**  One holder gives up what it held, and takes a region that nobody else
holds or none at all; the others keep what they hold. -/
theorem Exclusive.assign (x : w.Exclusive) (h : Holder) (taken : Option RegionId)
    (free : ∀ r, taken = some r → ∀ k, w.Holds r k → k = h)
    (holds : ∀ r k, v.Holds r k ↔ (k = h ∧ taken = some r) ∨ (k ≠ h ∧ w.Holds r k))
    (active : ∀ r, v.possessions.isActive r = true ↔
      taken = some r ∨ (w.possessions.isActive r = true ∧ ¬ w.Holds r h)) : v.Exclusive := by
  constructor
  · intro r
    rw [active]
    constructor
    · rintro (hr | ⟨hr, given_up⟩)
      · exact ⟨h, (holds r h).2 (Or.inl ⟨rfl, hr⟩)⟩
      · obtain ⟨k, hk⟩ := (x.active_iff r).1 hr
        have other : k ≠ h := fun he => given_up (he ▸ hk)
        exact ⟨k, (holds r k).2 (Or.inr ⟨other, hk⟩)⟩
    · rintro ⟨k, hk⟩
      rcases (holds r k).1 hk with ⟨-, hr⟩ | ⟨other, hk⟩
      · exact Or.inl hr
      · exact Or.inr ⟨(x.active_iff r).2 ⟨k, hk⟩, fun hh => other (x.unique r k h hk hh)⟩
  · intro r k l hk hl
    rcases (holds r k).1 hk with ⟨rfl, hr⟩ | ⟨other, hk⟩ <;>
      rcases (holds r l).1 hl with ⟨rfl, hr'⟩ | ⟨other', hl⟩
    · rfl
    · exact absurd (free r hr l hl) other'
    · exact absurd (free r hr' k hk) other
    · exact x.unique r k l hk hl

theorem Exclusive.not_holds (x : w.Exclusive) {r : RegionId}
    (free : w.possessions.isActive r = false) (h : Holder) : ¬ w.Holds r h := by
  intro hh
  rw [(x.active_iff r).2 ⟨h, hh⟩] at free
  cases free

/-! ## What an operation does to the holders -/

theorem holds_job_iff {name : String} {r : RegionId} {j : Job} (hj : w.jobs[name]? = some j) :
    w.Holds r (.job name) ↔ j.region = r ∧ j.isDone = false := by
  simp only [Holds, hj, Option.some.injEq, exists_eq_left']

theorem not_holds_job {name : String} (hj : w.jobs[name]? = none) (r : RegionId) :
    ¬ w.Holds r (.job name) := by
  rintro ⟨j, named, -⟩
  rw [hj] at named
  cases named

theorem holds_insert_job {name : String} {j : Job} {r : RegionId} {k : Holder}
    (hj : v.jobs = w.jobs.insert name j) (hs : v.slots = w.slots) :
    v.Holds r k ↔ (k = .job name ∧ j.region = r ∧ j.isDone = false) ∨
      (k ≠ .job name ∧ w.Holds r k) := by
  cases k with
  | job other =>
    by_cases he : name = other
    · subst he
      simp [Holds, hj]
    · simp [Holds, hj, lookup_insert, he, Ne.symm he]
  | slot other => simp [Holds, hs]

theorem holds_erase_job {name : String} {r : RegionId} {k : Holder}
    (hj : v.jobs = w.jobs.erase name) (hs : v.slots = w.slots) :
    v.Holds r k ↔ k ≠ .job name ∧ w.Holds r k := by
  cases k with
  | job other =>
    by_cases he : name = other
    · subst he
      simp [Holds, hj]
    · simp [Holds, hj, lookup_erase, he, Ne.symm he]
  | slot other => simp [Holds, hs]

theorem holds_insert_slot {name : String} {r s : RegionId} {k : Holder} (hj : v.jobs = w.jobs)
    (hs : v.slots = w.slots.insert name s) :
    v.Holds r k ↔ (k = .slot name ∧ s = r) ∨ (k ≠ .slot name ∧ w.Holds r k) := by
  cases k with
  | job other => simp [Holds, hj]
  | slot other =>
    by_cases he : name = other
    · subst he
      simp [Holds, hs]
    · simp [Holds, hs, lookup_insert, he, Ne.symm he]

theorem holds_erase_slot {name : String} {r : RegionId} {k : Holder} (hj : v.jobs = w.jobs)
    (hs : v.slots = w.slots.erase name) : v.Holds r k ↔ k ≠ .slot name ∧ w.Holds r k := by
  cases k with
  | job other => simp [Holds, hj]
  | slot other =>
    by_cases he : name = other
    · subst he
      simp [Holds, hs]
    · simp [Holds, hs, lookup_erase, he, Ne.symm he]

/-! ## Operations -/

/-- What is done in a workshop.  Every job may be started on a track and with markers of its own. -/
inductive Operation where
  | start (name : String) (t : Host) (ms : MarkerRoll) (c : BuildSettings) (r : RegionId)
      (scope : SurveyScope)
  | step (name : String) (b : Allowance)
  | cancel (name : String)
  | drop (name : String)
  | claim (name : String) (r : RegionId)
  | unclaim (name : String)

namespace Operation

/-- The workshop after an operation, or why it is refused.  A name that nothing bears changes
nothing. -/
def attempt (w : Workshop) : Operation → Except BuildFault Workshop
  | start name t ms c r scope => Workshop.start { w with track := t, markers := ms } name c r scope
  | step name b => .ok (((w.step name b).map Prod.fst).getD w)
  | cancel name => .ok ((w.cancel name).getD w)
  | drop name => .ok ((w.drop name).getD w)
  | claim name r => w.claim name r
  | unclaim name => .ok ((w.unclaim name).getD w)

/-- The workshop after an operation; a refused one leaves it as it is. -/
def perform (w : Workshop) (op : Operation) : Workshop :=
  match op.attempt w with
  | .ok v => v
  | .error _ => w

/-- Whose hands an operation changes. -/
@[simp]
def holder : Operation → Holder
  | start name _ _ _ _ _ | step name _ | cancel name | drop name => .job name
  | claim name _ | unclaim name => .slot name

/-- The region that this holder has once the operation is carried out. -/
def taken (w : Workshop) : Operation → Option RegionId
  | start _ _ _ _ r _ | claim _ r => some r
  | step name b =>
    (w.jobs[name]?).bind fun j => if (j.step b).job.isDone then none else some j.region
  | cancel _ | drop _ | unclaim _ => none

/-- Whether an operation asks for a region. -/
def asks : Operation → Bool
  | start _ _ _ _ _ _ | claim _ _ => true
  | step _ _ | cancel _ | drop _ | unclaim _ => false

/-- Why an operation is to be refused: its settings are unusable, or else its region is held. -/
inductive Refused (w : Workshop) : Operation → BuildFault → Prop
  | settings {name : String} {t : Host} {ms : MarkerRoll} {c : BuildSettings} {r : RegionId}
      {scope : SurveyScope} {f : SettingsFault} (unusable : c.check = .error f) :
      Refused w (start name t ms c r scope) (.settings f)
  | running {name : String} {t : Host} {ms : MarkerRoll} {c : BuildSettings} {r : RegionId}
      {scope : SurveyScope} {h : Holder} (usable : c.check = .ok ()) (held : w.Holds r h) :
      Refused w (start name t ms c r scope) (.alreadyRunning r)
  | claimed {name : String} {r : RegionId} {h : Holder} (held : w.Holds r h) :
      Refused w (claim name r) (.alreadyRunning r)

end Operation

/-- The workshop after some operations, one after the other. -/
def after (w : Workshop) (ops : List Operation) : Workshop := ops.foldl Operation.perform w

/-! ### What an operation comes to -/

theorem start_eq_ok {name : String} {t : Host} {ms : MarkerRoll} {c : BuildSettings} {r : RegionId}
    {scope : SurveyScope} (h : (Operation.start name t ms c r scope).attempt w = .ok v) :
    ∃ p, w.possessions.claim r = .ok p ∧
      v = { w with
        track := t
        markers := ms
        possessions := (w.jobs[name]?).elim p p.abandon
        jobs := w.jobs.insert name (.start c t ms r scope) } := by
  have h : Workshop.start { w with track := t, markers := ms } name c r scope = .ok v := h
  unfold Workshop.start at h
  split at h
  · cases h
  split at h
  · cases h
  rename_i p granted
  cases h
  exact ⟨p, granted, rfl⟩

theorem claim_eq_ok {name : String} {r : RegionId}
    (h : (Operation.claim name r).attempt w = .ok v) :
    ∃ p, w.possessions.claim r = .ok p ∧
      v = { w with
        possessions := (w.slots[name]?).elim p p.free
        slots := w.slots.insert name r } := by
  have h : w.claim name r = .ok v := h
  unfold Workshop.claim at h
  split at h
  · cases h
  rename_i p granted
  cases h
  exact ⟨p, granted, rfl⟩

theorem taken_step_iff {name : String} {j : Job} (hj : w.jobs[name]? = some j) {b : Allowance}
    {r : RegionId} : (Operation.step name b).taken w = some r ↔
      j.region = r ∧ (j.step b).job.isDone = false := by
  cases hd : (j.step b).job.isDone <;> simp [Operation.taken, hj, hd]

theorem isDone_of_step {j : Job} {b : Allowance} (h : (j.step b).job.isDone = false) :
    j.isDone = false := by
  cases hd : j.isDone with
  | true => exact absurd (Job.isDone_step_of_isDone hd b) (by simp [h])
  | false => rfl

/-- **What an operation does to the holders.**  Its own holder gives up what it held and has what is
taken; the others keep what they hold. -/
theorem holds_attempt {op : Operation} (done : op.attempt w = .ok v) (r : RegionId) (k : Holder) :
    v.Holds r k ↔ (k = op.holder ∧ op.taken w = some r) ∨ (k ≠ op.holder ∧ w.Holds r k) := by
  -- under a name that nothing bears nothing is held
  have nameless {h : Holder} (nothing : ¬ w.Holds r h) : w.Holds r k ↔ k ≠ h ∧ w.Holds r k :=
    ⟨fun held => ⟨fun he => nothing (he ▸ held), held⟩, And.right⟩
  cases op with
  | start name t ms c s scope =>
    obtain ⟨p, -, rfl⟩ := start_eq_ok done
    refine Iff.trans (holds_insert_job (w := w) rfl rfl) ?_
    simp [Operation.taken, Job.start, Job.isDone, Job.phase, JobPhase.isTerminal]
  | step name b =>
    cases done
    cases hj : w.jobs[name]? with
    | none =>
      simpa [Workshop.step, Operation.taken, hj]
        using nameless (not_holds_job hj r)
    | some j =>
      simp only [Workshop.step, hj, Option.map_some, Option.getD_some]
      refine Iff.trans (holds_insert_job (w := w) (j := (j.step b).job) rfl rfl) ?_
      rw [taken_step_iff hj, Job.region_step, Operation.holder]
  | cancel name =>
    cases done
    cases hj : w.jobs[name]? with
    | none =>
      simpa [Workshop.cancel, Operation.taken, hj]
        using nameless (not_holds_job hj r)
    | some j =>
      simp only [Workshop.cancel, hj, Option.map_some, Option.getD_some]
      refine Iff.trans (holds_insert_job (w := w) rfl rfl) ?_
      simp [Operation.taken, Job.isDone_cancel]
  | drop name =>
    cases done
    cases hj : w.jobs[name]? with
    | none =>
      simpa [Workshop.drop, Operation.taken, hj]
        using nameless (not_holds_job hj r)
    | some j =>
      simp only [Workshop.drop, hj, Option.map_some, Option.getD_some]
      refine Iff.trans (holds_erase_job (w := w) rfl rfl) ?_
      simp [Operation.taken]
  | claim name s =>
    obtain ⟨p, -, rfl⟩ := claim_eq_ok done
    refine Iff.trans (holds_insert_slot (w := w) rfl rfl) ?_
    simp [Operation.taken]
  | unclaim name =>
    cases done
    cases hs : w.slots[name]? with
    | none =>
      have nothing : ¬ w.Holds r (.slot name) := by simp [Holds, hs]
      simpa [Workshop.unclaim, Operation.taken, hs] using nameless nothing
    | some s =>
      simp only [Workshop.unclaim, hs, Option.map_some, Option.getD_some]
      refine Iff.trans (holds_erase_slot (w := w) rfl rfl) ?_
      simp [Operation.taken]

/-- Nobody else holds what an operation takes. -/
theorem Exclusive.eq_holder (x : w.Exclusive) {op : Operation} (done : op.attempt w = .ok v)
    {r : RegionId} (taken : op.taken w = some r) {k : Holder} (held : w.Holds r k) :
    k = op.holder := by
  cases op with
  | start name t ms c s scope =>
    obtain ⟨p, granted, -⟩ := start_eq_ok done
    cases taken
    exact absurd held (x.not_holds (Possessions.claim_eq_ok granted).1 k)
  | claim name s =>
    obtain ⟨p, granted, -⟩ := claim_eq_ok done
    cases taken
    exact absurd held (x.not_holds (Possessions.claim_eq_ok granted).1 k)
  | step name b =>
    cases hj : w.jobs[name]? with
    | none => simp [Operation.taken, hj] at taken
    | some j =>
      obtain ⟨region, open_⟩ := (taken_step_iff hj).1 taken
      exact x.unique r k (.job name) held ((holds_job_iff hj).2 ⟨region, isDone_of_step open_⟩)
  | cancel name => cases taken
  | drop name => cases taken
  | unclaim name => cases taken

/-- What was granted to a holder is claimed, and what it held before is so no longer. -/
theorem Exclusive.isActive_grant (x : w.Exclusive) {r s : RegionId} {p q : Possessions} {h : Holder}
    (granted : w.possessions.claim r = .ok p)
    (given_up : q.isActive s = true ↔ p.isActive s = true ∧ ¬ w.Holds s h) :
    q.isActive s = true ↔ some r = some s ∨ (w.possessions.isActive s = true ∧ ¬ w.Holds s h) := by
  obtain ⟨free, claimed⟩ := Possessions.claim_eq_ok granted
  rw [given_up, claimed, Option.some.injEq]
  constructor
  · rintro ⟨rfl | other, kept⟩
    · exact Or.inl rfl
    · exact Or.inr ⟨other, kept⟩
  · rintro (rfl | ⟨other, kept⟩)
    · -- what is granted was free, so the holder did not hold it before
      exact ⟨Or.inl rfl, x.not_holds free h⟩
    · exact ⟨Or.inr other, kept⟩

/-- A step gives the region of a job free when it ends the job, and never later. -/
theorem Exclusive.isActive_step (x : w.Exclusive) {name : String} {j : Job}
    (hj : w.jobs[name]? = some j) (b : Allowance) (r : RegionId) :
    (w.absorb name j [j.step b]).possessions.isActive r = true ↔
      (Operation.step name b).taken w = some r ∨
        (w.possessions.isActive r = true ∧ ¬ w.Holds r (.job name)) := by
  have told : [j.step b].flatMap JobStep.notices = (j.step b).notices := by simp
  have release : .released r ∈ (j.step b).notices ↔
      j.region = r ∧ j.isDone = false ∧ (j.step b).job.isDone = true := by
    constructor
    · intro h
      have region : r = j.region := Job.region_of_mem_step h
      rw [region] at h
      exact ⟨region.symm, Job.released_mem_step.1 h⟩
    · rintro ⟨rfl, h⟩
      exact Job.released_mem_step.2 h
  rw [taken_step_iff hj, holds_job_iff hj]
  show (w.possessions.hearAll ([j.step b].flatMap JobStep.notices)).isActive r = true ↔ _
  rw [told, Possessions.isActive_hearAll, release]
  cases hs : (j.step b).job.isDone with
  | true => simp
  | false =>
    have busy : j.isDone = false := isDone_of_step hs
    have held : w.possessions.isActive j.region = true :=
      (x.active_iff _).2 ⟨_, (holds_job_iff hj).2 ⟨rfl, busy⟩⟩
    simp only [Bool.false_eq_true, and_false, not_false_eq_true, and_true, busy]
    constructor
    · intro active
      by_cases region : j.region = r
      · exact Or.inl region
      · exact Or.inr ⟨active, region⟩
    · rintro (rfl | ⟨active, -⟩)
      · exact held
      · exact active

/-- **What an operation does to what is claimed.**  What its holder held is given free, and what is
taken is claimed. -/
theorem Exclusive.isActive_attempt (x : w.Exclusive) {op : Operation} (done : op.attempt w = .ok v)
    (r : RegionId) : v.possessions.isActive r = true ↔
      op.taken w = some r ∨ (w.possessions.isActive r = true ∧ ¬ w.Holds r op.holder) := by
  -- one whose name nothing bears gives up nothing, and the others what they held
  have nameless {h : Holder} (nothing : ¬ w.Holds r h) : w.possessions.isActive r = true ↔
      none = some r ∨ (w.possessions.isActive r = true ∧ ¬ w.Holds r h) := by
    simp [nothing]
  cases op with
  | start name t ms c s scope =>
    obtain ⟨p, granted, rfl⟩ := start_eq_ok done
    refine x.isActive_grant granted ?_
    cases hj : w.jobs[name]? with
    | none => simp [not_holds_job hj]
    | some j => rw [Option.elim_some, Possessions.isActive_abandon, Operation.holder,
        holds_job_iff hj]
  | claim name s =>
    obtain ⟨p, granted, rfl⟩ := claim_eq_ok done
    refine x.isActive_grant granted ?_
    cases hs : w.slots[name]? with
    | none => simp [hs, Holds]
    | some old => simp [hs, Holds, Possessions.isActive_free_iff]
  | step name b =>
    cases done
    cases hj : w.jobs[name]? with
    | none =>
      simpa [Workshop.step, Operation.taken, hj] using nameless (not_holds_job hj r)
    | some j => simpa [Workshop.step, hj] using x.isActive_step hj b r
  | cancel name =>
    cases done
    cases hj : w.jobs[name]? with
    | none => simpa [Workshop.cancel, Operation.taken, hj] using nameless (not_holds_job hj r)
    | some j => simp [Workshop.cancel, Operation.taken, hj,
        Possessions.isActive_abandon, holds_job_iff hj]
  | drop name =>
    cases done
    cases hj : w.jobs[name]? with
    | none => simpa [Workshop.drop, Operation.taken, hj] using nameless (not_holds_job hj r)
    | some j => simp [Workshop.drop, Operation.taken, hj,
        Possessions.isActive_abandon, holds_job_iff hj]
  | unclaim name =>
    cases done
    cases hs : w.slots[name]? with
    | none =>
      have nothing : ¬ w.Holds r (.slot name) := by simp [Holds, hs]
      simpa [Workshop.unclaim, Operation.taken, hs] using nameless nothing
    | some s => simp [Workshop.unclaim, Operation.taken, hs, Holds,
        Possessions.isActive_free_iff]

/-- **Every operation keeps what is claimed in the hands of one holder.** -/
theorem Exclusive.perform (x : w.Exclusive) (op : Operation) : (op.perform w).Exclusive := by
  unfold Operation.perform
  split
  · rename_i v done
    exact x.assign op.holder (op.taken w) (fun r taken k held => x.eq_holder done taken held)
      (holds_attempt done) (x.isActive_attempt done)
  · exact x

/-- **What is claimed is in the hands of one holder**, whatever was done. -/
theorem exclusive_after (x : w.Exclusive) (ops : List Operation) : (w.after ops).Exclusive := by
  induction ops generalizing w with
  | nil => exact x
  | cons op ops ih => exact ih (x.perform op)

theorem exclusive_opened (t : Host) (ms : MarkerRoll) :
    Exclusive { track := t, markers := ms } := by
  have empty (r : RegionId) (h : Holder) : ¬ Holds { track := t, markers := ms } r h := by
    cases h <;> simp [Holds]
  constructor
  · intro r
    refine iff_of_false ?_ fun ⟨h, held⟩ => empty r h held
    simp [Possessions.isActive, Possessions.empty]
  · intro r h k held
    exact absurd held (empty r h)

/-! ### What has been given up -/

/-- Whoever holds nothing and asks for nothing is given nothing. -/
theorem not_holds_perform {h : Holder} (nothing : ∀ r, ¬ w.Holds r h) {op : Operation}
    (quiet : op.holder = h → op.asks = false) (r : RegionId) : ¬ (op.perform w).Holds r h := by
  unfold Operation.perform
  split
  · rename_i v done
    rw [holds_attempt done]
    rintro (⟨rfl, taken⟩ | ⟨-, held⟩)
    · cases op with
      | step name b =>
        cases hj : w.jobs[name]? with
        | none => simp [Operation.taken, hj] at taken
        | some j =>
          obtain ⟨region, open_⟩ := (taken_step_iff hj).1 taken
          exact nothing r ((holds_job_iff hj).2 ⟨region, isDone_of_step open_⟩)
      | start name t ms c s scope => cases quiet rfl
      | claim name s => cases quiet rfl
      | cancel name => cases taken
      | drop name => cases taken
      | unclaim name => cases taken
    · exact nothing r held
  · exact nothing r

theorem not_holds_after {h : Holder} {ops : List Operation} (nothing : ∀ r, ¬ w.Holds r h)
    (quiet : ∀ op ∈ ops, op.holder = h → op.asks = false) (r : RegionId) :
    ¬ (w.after ops).Holds r h := by
  induction ops generalizing w with
  | nil => exact nothing r
  | cons op ops ih =>
    refine ih (not_holds_perform nothing (quiet op (List.mem_cons_self ..))) fun o ho => ?_
    exact quiet o (List.mem_cons_of_mem _ ho)

/-- **What is given up stays given up.**  A job that was cancelled, dropped or stepped to its end and
a claim that was dropped hold nothing, whatever is done since, until a region is asked for under the
name again. -/
theorem not_holds_since {op : Operation} {ops : List Operation} (gives_up : op.taken w = none)
    (quiet : ∀ o ∈ op :: ops, o.holder = op.holder → o.asks = false) (r : RegionId) :
    ¬ (w.after (op :: ops)).Holds r op.holder := by
  have done : op.attempt w = .ok (op.perform w) := by
    have asks : op.asks = false := quiet op (List.mem_cons_self ..) rfl
    cases op with
    | start name t ms c s scope => cases asks
    | claim name s => cases asks
    | step name b => rfl
    | cancel name => rfl
    | drop name => rfl
    | unclaim name => rfl
  refine not_holds_after (w := op.perform w) (fun s => ?_)
    (fun o ho => quiet o (List.mem_cons_of_mem _ ho)) r
  rw [holds_attempt done, gives_up]
  simp

theorem taken_step_eq_none_iff {name : String} {b : Allowance} :
    (Operation.step name b).taken w = none ↔
      ∀ j, w.jobs[name]? = some j → (j.step b).job.isDone = true := by
  cases hj : w.jobs[name]? with
  | none => simp [Operation.taken, hj]
  | some j => cases hd : (j.step b).job.isDone <;> simp [Operation.taken, hj, hd]

/-! ## Refusals and callbacks -/

/-- Who is refused, and why. -/
theorem Exclusive.attempt_eq_error_iff (x : w.Exclusive) {op : Operation} {e : BuildFault} :
    op.attempt w = .error e ↔ op.Refused w e := by
  constructor
  · intro h
    cases op with
    | start name t ms c r scope =>
      have h : Workshop.start { w with track := t, markers := ms } name c r scope = .error e := h
      unfold Workshop.start at h
      split at h
      · rename_i f unusable
        cases h
        exact .settings unusable
      · rename_i usable
        split at h
        · rename_i f refused
          cases h
          obtain ⟨active, rfl⟩ := Possessions.claim_eq_error_iff.1 refused
          obtain ⟨k, held⟩ := (x.active_iff r).1 active
          exact .running usable held
        · cases h
    | claim name r =>
      have h : w.claim name r = .error e := h
      unfold Workshop.claim at h
      split at h
      · rename_i f refused
        cases h
        obtain ⟨active, rfl⟩ := Possessions.claim_eq_error_iff.1 refused
        obtain ⟨k, held⟩ := (x.active_iff r).1 active
        exact .claimed held
      · cases h
    | step name b => cases h
    | cancel name => cases h
    | drop name => cases h
    | unclaim name => cases h
  · intro h
    cases h with
    | settings unusable => simp only [Operation.attempt, Workshop.start, unusable]
    | running usable held =>
      have refused := Possessions.claim_eq_error_iff.2 ⟨(x.active_iff _).2 ⟨_, held⟩, rfl⟩
      simp only [Operation.attempt, Workshop.start, usable, refused]
    | claimed held =>
      have refused := Possessions.claim_eq_error_iff.2 ⟨(x.active_iff _).2 ⟨_, held⟩, rfl⟩
      simp only [Operation.attempt, Workshop.claim, refused]

/-- A region is free by the time its job tells of its end. -/
theorem isActive_before_end {p : Possessions} {j : Job} {b : Allowance} {before later : List Notice}
    {n : Notice} (told : (j.step b).notices = before ++ n :: later) (ends : n.tellsEnd = true) :
    n.region = j.region ∧ (p.hearAll before).isActive j.region = false := by
  constructor
  · apply Job.region_of_mem_step (b := b)
    rw [told]
    exact List.mem_append_right _ (List.mem_cons_self ..)
  · rw [← Bool.not_eq_true, Possessions.isActive_hearAll]
    exact fun h => h.2 (Job.released_before told ends)

/-- **One build per region.**  Whatever was done in a workshop, a region is claimed exactly if one
unfinished job or bare claim holds it, and two never do.  A start or claim is refused exactly if its
settings are unusable or, else, its region is held, and then changes nothing.  When a job tells that
it is over, its region has been given free. -/
theorem one_build_per_region (t : Host) (ms : MarkerRoll) (ops : List Operation) :
    let w := Workshop.after { track := t, markers := ms } ops
    (∀ r, w.possessions.isActive r = true ↔ ∃! h, w.Holds r h) ∧
    (∀ r h k, w.Holds r h → w.Holds r k → h = k) ∧
    (∀ (op : Operation) (e : BuildFault), (op.attempt w = .error e ↔ op.Refused w e) ∧
      (op.Refused w e → op.perform w = w)) ∧
    ∀ (name : String) (j : Job) (b : Allowance) (before later : List Notice) (n : Notice),
      w.jobs[name]? = some j → (j.step b).notices = before ++ n :: later → n.tellsEnd = true →
        n.region = j.region ∧ (w.possessions.hearAll before).isActive j.region = false := by
  intro w
  have x : w.Exclusive := exclusive_after (exclusive_opened t ms) ops
  refine ⟨fun r => ?_, x.unique, fun op e => ⟨x.attempt_eq_error_iff, fun refused => ?_⟩, ?_⟩
  · rw [x.active_iff]
    exact ⟨fun ⟨h, held⟩ => ⟨h, held, fun k hk => x.unique r k h hk held⟩, fun h => h.exists⟩
  · rw [Operation.perform, x.attempt_eq_error_iff.2 refused]
  · intro name j b before later n _ told ends
    exact isActive_before_end told ends

/-- Two stations on a line: while a job builds their region, a claim on it changes nothing, and in
the step that ends the job the region is free before the job tells that it is finished. -/
theorem one_build_per_region_line :
    let line := (Track.empty.insert ⟨0, 64, 0⟩).insert ⟨1, 64, 0⟩ |>.insert ⟨2, 64, 0⟩
    let station (name : String) (x : Int32) : Marker := ⟨⟨name⟩, .station, ⟨x, 65, 0⟩, none, none⟩
    let roll := MarkerRoll.empty.extend ⟨"main"⟩ [station "A" 0, station "B" 2]
    let job := Job.start {} line roll ⟨"main"⟩ .whole
    let w := Workshop.after { track := line, markers := roll }
      [.start "a" line roll {} ⟨"main"⟩ .whole]
    let opening : List Notice := [.phase ⟨"main"⟩ .exploring, .released ⟨"main"⟩]
    (Operation.claim "s" ⟨"main"⟩).attempt w = .error (.alreadyRunning ⟨"main"⟩) ∧
      (Operation.claim "s" ⟨"main"⟩).perform w = w ∧
      (∃ built, (job.step (.units 100)).notices =
        opening ++ .phase ⟨"main"⟩ .finished :: [.success built]) ∧
      (w.possessions.hearAll opening).isActive ⟨"main"⟩ = false := by
  intro line station roll job w opening
  have named : w.jobs["a"]? = some job := by
    have usable : ({} : BuildSettings).check = .ok () := rfl
    simp [w, job, after, Operation.perform, Operation.attempt, Workshop.start, usable,
      Possessions.claim, Possessions.isActive, Possessions.empty]
  have told : ∃ built, (job.step (.units 100)).notices =
      opening ++ .phase ⟨"main"⟩ .finished :: [.success built] := by
    have total : job.cost = 9 := by decide +kernel
    have spare : job.cost < (Allowance.units 100).maxUnits := by
      rw [total]
      decide
    obtain ⟨-, built, region, notices⟩ := Job.step_whole rfl spare
    rw [Job.successNotices, region] at notices
    exact ⟨built, notices⟩
  obtain ⟨-, -, refused, free⟩ :=
    one_build_per_region line roll [.start "a" line roll {} ⟨"main"⟩ .whole]
  obtain ⟨error_iff, unchanged⟩ := refused (.claim "s" ⟨"main"⟩) (.alreadyRunning ⟨"main"⟩)
  have held : (Operation.claim "s" ⟨"main"⟩).Refused w (.alreadyRunning ⟨"main"⟩) :=
    .claimed (h := .job "a") ⟨job, named, rfl, rfl⟩
  obtain ⟨built, notices⟩ := told
  exact ⟨error_iff.2 held, unchanged held, ⟨built, notices⟩,
    (free "a" job (.units 100) opening [.success built] _ named notices rfl).2⟩

end Workshop

end Signalbox
