import Signalbox.Proofs.Build.Schedule

/-!
# Steps under a deadline that is over

The clock is looked at when the units used are a multiple of the stride, and a stage counts its
units from the beginning of each turn.  A stage that may spend anything is therefore stopped after
one stride.  A job is stopped when its own count is a multiple of the stride: if a survey ends after
fewer units than a stride, the count is out of step from then on, and the deadline is not noticed
before the job is done or the units are spent.

* `Stepwise.fst_step_of_expired` : a stage uses one stride at most;
* `Job.used_step_of_expired`     : the units that a step of a job uses;
* `Job.used_step_le_iff`         : when they are two strides at most;
* `Job.deadline_unnoticed_after_short_survey` : a step that uses more.
-/

set_option autoImplicit false

namespace Signalbox

namespace Allowance

variable {b : Allowance} {used : Nat}

/-- Within the first stride the clock is looked at only at its end. -/
theorem allows_of_expired (hb : b.deadline = some past) (hu : used ≤ clockStride) :
    b.allows used = true ↔ used < min clockStride b.maxUnits := by
  unfold allows
  rw [hb, Nat.lt_min]
  rcases Nat.lt_or_eq_of_le hu with hlt | rfl
  · have unseen : ¬ (0 < used ∧ used % clockStride = 0) := by
      rw [Nat.mod_eq_of_lt hlt]
      omega
    simp [if_neg unseen, hlt]
  · have seen : 0 < clockStride ∧ clockStride % clockStride = 0 := by decide
    simp only [if_pos seen, past, Bool.and_false, Bool.false_eq_true, false_iff]
    omega

theorem allows_out_of_step (off : used % clockStride ≠ 0) :
    b.allows used = true ↔ used < b.maxUnits := by
  unfold allows
  cases b.deadline with
  | none => simp
  | some clock => simp [off]

@[simp] theorem remaining_zero (b : Allowance) : b.remaining 0 = b := by
  obtain ⟨n, deadline⟩ := b
  cases deadline <;> simp [remaining]

theorem deadline_remaining_of_expired (hb : b.deadline = some past) (used : Nat) :
    (b.remaining used).deadline = some past := by
  simp only [remaining, hb, Option.map_some]
  rfl

end Allowance

namespace Stepwise

variable {σ : Type} [Stepwise σ] {b : Allowance}

/-- From a count within the first stride, work is done up to its end, the end of the units, or the
end of the stride. -/
theorem fst_stepFrom_of_expired (hb : b.deadline = some Allowance.past) (used : Nat) (s : σ)
    (hu : used ≤ min Allowance.clockStride b.maxUnits) :
    (stepFrom b used s).1 = min (used + cost s) (min Allowance.clockStride b.maxUnits) := by
  fun_induction stepFrom b used s with
  | case1 used s h ih =>
    have room := (Allowance.allows_of_expired hb (by omega)).1 h.1
    rw [ih (by omega), cost_advance h.2]
    omega
  | case2 used s h =>
    cases hd : isDone s with
    | true =>
      rw [cost_of_done hd]
      omega
    | false =>
      have closed : ¬ b.allows used = true := fun ha => h ⟨ha, hd⟩
      rw [Allowance.allows_of_expired hb (by omega)] at closed
      omega

/-- **Under a deadline that is over, a step uses one stride at most**: it stops at the end of the
work, of the units, or of the first stride. -/
theorem fst_step_of_expired (hb : b.deadline = some Allowance.past) (s : σ) :
    (step b s).1 = min (cost s) (min Allowance.clockStride b.maxUnits) := by
  rw [step, fst_stepFrom_of_expired hb 0 s (Nat.zero_le _), Nat.zero_add]

end Stepwise

namespace Job

variable {b : Allowance} {j : Job} {used : Nat}

/-! ## Turns -/

/-- A turn stops at the end of its stage, of the units, or of a stride. -/
theorem used_turn_of_expired (hb : b.deadline = some Allowance.past) (j : Job) :
    (j.turn b).used = min j.stageCost (min Allowance.clockStride b.maxUnits) := by
  obtain ⟨region, settings, track, stage, processed⟩ := j
  cases stage with
  | surveying s => exact Stepwise.fst_step_of_expired hb s
  | exploring found report s => exact Stepwise.fst_step_of_expired hb s
  | finished => exact (Nat.zero_min _).symm
  | failed => exact (Nat.zero_min _).symm
  | cancelled => exact (Nat.zero_min _).symm

theorem isRipe_iff_stageCost : j.isRipe = true ↔ j.stageCost = 0 := by
  obtain ⟨region, settings, track, stage, processed⟩ := j
  cases stage with
  | surveying s => exact (Stepwise.cost_eq_zero_iff (s := s)).symm
  | exploring found report s => exact (Stepwise.cost_eq_zero_iff (s := s)).symm
  | finished => exact iff_of_true rfl rfl
  | failed => exact iff_of_true rfl rfl
  | cancelled => exact iff_of_true rfl rfl

theorem isDone_iff_stagesLeft : j.isDone = true ↔ j.stagesLeft = 0 := by
  obtain ⟨region, settings, track, stage, processed⟩ := j
  cases stage <;> simp [isDone, phase, JobPhase.isTerminal, stagesLeft]

theorem cost_of_isDone (h : j.isDone = true) : j.cost = 0 := by
  rw [cost, if_pos h]

theorem stageCost_le_cost (j : Job) : j.stageCost ≤ j.cost := by
  cases hd : j.isDone with
  | true =>
    have zero : j.stageCost = 0 := by
      obtain ⟨region, settings, track, stage, processed⟩ := j
      cases stage <;> first | rfl | cases hd
    omega
  | false =>
    rw [cost_of_not_isDone hd]
    exact Nat.le_add_right _ _

theorem stagesLeft_le (j : Job) : j.stagesLeft ≤ 2 := by
  unfold stagesLeft
  split <;> omega

theorem stagesLeft_turn_le (b : Allowance) (j : Job) : (j.turn b).job.stagesLeft ≤ j.stagesLeft := by
  have spent : (j.spend b).2.stagesLeft = j.stagesLeft := by
    rw [← stagesLeft_ripe, ripe_spend, stagesLeft_ripe]
  rw [turn_job, ← spent]
  rcases handOver_eq_or_lt (j.spend b).2 with h | h
  · exact Nat.le_of_eq (congrArg stagesLeft h)
  · exact Nat.le_of_lt h

theorem stagesLeft_turn_lt (hd : j.isDone = false) (h : (j.turn b).used = j.stageCost) :
    (j.turn b).job.stagesLeft < j.stagesLeft := by
  have spent : (j.spend b).2.stagesLeft = j.stagesLeft := by
    rw [← stagesLeft_ripe, ripe_spend, stagesLeft_ripe]
  have left := stageCost_spend b j
  rw [turn_used] at h
  have ripe : (j.spend b).2.isRipe = true := isRipe_iff_stageCost.2 (by omega)
  rw [turn_job, ← spent]
  exact stagesLeft_handOver ripe ((isDone_spend b j).trans hd)

/-! ## Steps -/

theorem used_stepFrom_of_isDone (h : j.isDone = true) : (stepFrom b used j).used = used := by
  rw [stepFrom, if_neg]
  simp [h]

theorem used_stepFrom_of_not_allows (h : ¬ b.allows used = true) :
    (stepFrom b used j).used = used := by
  rw [stepFrom, if_neg]
  exact fun ha => h ha.2

theorem used_stepFrom_of_le (h : b.maxUnits ≤ used) : (stepFrom b used j).used = used :=
  used_stepFrom_of_not_allows fun ha => Nat.not_le.2 (Allowance.lt_of_allows ha) h

section

variable (hb : b.deadline = some Allowance.past)
include hb

theorem used_step (j : Job) :
    (j.step b).used = (stepFrom b (j.turn b).used (j.turn b).job).used := by
  cases hd : j.isDone with
  | true =>
    rw [turn_of_isDone b hd]
    rfl
  | false =>
    by_cases ha : b.allows 0 = true
    · rw [step, stepFrom, if_pos ⟨hd, ha⟩, Allowance.remaining_zero]
      simp only [Nat.zero_add]
    · have spent := used_turn_of_expired hb j
      have none : ¬ 0 < b.maxUnits := by simpa [Allowance.allows_zero] using ha
      rw [step, used_stepFrom_of_not_allows ha, used_stepFrom_of_le (by omega)]
      omega

/-- A turn that stops before the end of its stage, and not at the end of a stride, has used up the
units. -/
theorem spent_of_turn (hne : (j.turn b).used ≠ j.stageCost)
    (hpart : (j.turn b).used ≠ Allowance.clockStride) : (j.turn b).used = b.maxUnits := by
  have spent := used_turn_of_expired hb j
  omega

/-- The last stage of a job, when the count is out of step with the stride: nothing stops it but its
end and the end of the units. -/
theorem used_stepFrom_out_of_step (hs : j.stagesLeft ≤ 1) (hu : used ≤ b.maxUnits)
    (off : used % Allowance.clockStride ≠ 0) :
    (stepFrom b used j).used = min (used + j.cost) b.maxUnits := by
  fun_induction stepFrom b used j with
  | case1 used j h t rest ih =>
    have expired := Allowance.deadline_remaining_of_expired hb used
    have spent : t.used = min j.stageCost (min Allowance.clockStride (b.maxUnits - used)) :=
      used_turn_of_expired expired j
    have cost : t.used + t.job.cost = j.cost := cost_turn (b.remaining used) j
    show rest.used = _
    by_cases through : t.used = j.stageCost
    · have last : t.job.stagesLeft < j.stagesLeft := stagesLeft_turn_lt h.1 through
      have done : t.job.isDone = true := isDone_iff_stagesLeft.2 (by omega)
      rw [used_stepFrom_of_isDone done]
      rw [cost_of_isDone done] at cost
      omega
    by_cases full : t.used = Allowance.clockStride
    · -- a whole stride leaves the count as far out of step as it was
      have stages : t.job.stagesLeft ≤ j.stagesLeft := stagesLeft_turn_le _ j
      have still : (used + t.used) % Allowance.clockStride ≠ 0 := by
        rw [full, Nat.add_mod_right]
        exact off
      rw [ih (by omega) (by omega) still]
      omega
    · have ended : b.maxUnits - used = t.used := (spent_of_turn expired through full).symm
      rw [used_stepFrom_of_le (by omega)]
      omega
  | case2 used j h =>
    show used = _
    cases hd : j.isDone with
    | true =>
      rw [cost_of_isDone hd]
      omega
    | false =>
      have ended : ¬ b.allows used = true := fun ha => h ⟨hd, ha⟩
      rw [Allowance.allows_out_of_step off] at ended
      omega

theorem used_step_of_stage (hne : (j.turn b).used ≠ j.stageCost) :
    (j.step b).used = min Allowance.clockStride b.maxUnits := by
  have spent := used_turn_of_expired hb j
  have ended : ¬ b.allows (j.turn b).used = true := by
    rw [Allowance.allows_of_expired hb (by omega)]
    omega
  rw [used_step hb, used_stepFrom_of_not_allows ended]
  omega

/-- The last stage of a job, from the beginning of a step: it is stopped after one stride. -/
theorem used_step_last_stage (hs : j.stagesLeft ≤ 1) :
    (j.step b).used = min j.cost (min Allowance.clockStride b.maxUnits) := by
  have spent := used_turn_of_expired hb j
  have cost := cost_turn b j
  by_cases through : (j.turn b).used = j.stageCost
  · have done : (j.turn b).job.isDone = true := by
      cases hd : j.isDone with
      | true => rw [turn_of_isDone b hd]; exact hd
      | false => exact isDone_iff_stagesLeft.2 (by have := stagesLeft_turn_lt hd through; omega)
    rw [used_step hb, used_stepFrom_of_isDone done]
    rw [cost_of_isDone done] at cost
    omega
  · rw [used_step_of_stage hb through]
    omega

/-- **The units that a step uses under a deadline that is over.**  If the stage takes fewer units
than a stride, the step goes on to the end of the job or of the units; if not, it stops after one
stride. -/
theorem used_step_of_expired (j : Job) : (j.step b).used =
    if 0 < j.stageCost ∧ j.stageCost < Allowance.clockStride then min j.cost b.maxUnits
    else min j.cost (min Allowance.clockStride b.maxUnits) := by
  have least := stageCost_le_cost j
  have spent := used_turn_of_expired hb j
  have cost := cost_turn b j
  by_cases through : (j.turn b).used = j.stageCost
  · cases hd : j.isDone with
    | true =>
      rw [used_step hb, turn_of_isDone b hd, used_stepFrom_of_isDone hd, cost_of_isDone hd]
      simp
    | false =>
      have last : (j.turn b).job.stagesLeft ≤ 1 := by
        have lt := stagesLeft_turn_lt hd through
        have le := stagesLeft_le j
        omega
      rw [used_step hb]
      by_cases short : 0 < j.stageCost ∧ j.stageCost < Allowance.clockStride
      · have off : j.stageCost % Allowance.clockStride ≠ 0 := by
          rw [Nat.mod_eq_of_lt short.2]
          omega
        rw [if_pos short, used_stepFrom_out_of_step hb last (by omega) (through ▸ off), cost]
      rw [if_neg short]
      rcases Nat.eq_zero_or_pos j.stageCost with none | some
      · have first := used_step_last_stage hb last
        rw [step] at first
        rw [through, none, first]
        omega
      · have ended : ¬ b.allows (j.turn b).used = true := by
          rw [Allowance.allows_of_expired hb (by omega)]
          omega
        rw [used_stepFrom_of_not_allows ended]
        omega
  · rw [used_step_of_stage hb through]
    split <;> omega

/-- **When a step stops within two strides of a deadline that is over**: unless its stage takes
fewer units than a stride, and both the job and the allowance are good for more than two. -/
theorem used_step_le_iff (j : Job) :
    (j.step b).used ≤ 2 * Allowance.clockStride ↔
      ¬ (0 < j.stageCost ∧ j.stageCost < Allowance.clockStride ∧
        2 * Allowance.clockStride < j.cost ∧ 2 * Allowance.clockStride < b.maxUnits) := by
  have stride : Allowance.clockStride = 64 := rfl
  rw [used_step_of_expired hb]
  split <;> omega

end

/-- A job that explores its territory stops within two strides of a deadline that is over, though
more than that is left to do and nothing else is in its way. -/
theorem used_step_le_two_strides_exploring :
    let block := ((List.range 45).map fun i =>
      ⟨.ofNat (i % 3), .ofNat (64 + i / 9), .ofNat (i / 3 % 3)⟩).foldl Track.insert .empty
    let roll := MarkerRoll.empty.extend ⟨"main"⟩ [⟨⟨"A"⟩, .station, ⟨0, 65, 0⟩, none, none⟩]
    let job := (start {} block roll ⟨"main"⟩ .whole).ripe.handOver.1
    let b := Allowance.upTo Allowance.past
    b.deadline = some Allowance.past ∧ 2 * Allowance.clockStride < b.maxUnits ∧
      2 * Allowance.clockStride < job.cost ∧ (job.step b).used ≤ 2 * Allowance.clockStride := by
  intro block roll job b
  have expired : b.deadline = some Allowance.past := rfl
  have long : 2 * Allowance.clockStride < job.stageCost := by decide +kernel
  have least := stageCost_le_cost job
  refine ⟨expired, by decide, by omega, (used_step_le_iff expired job).2 ?_⟩
  rintro ⟨-, short, -, -⟩
  omega

/-- A survey of three units, and more than two strides of track: the deadline is not noticed. -/
theorem deadline_unnoticed_after_short_survey :
    let block := ((List.range 45).map fun i =>
      ⟨.ofNat (i % 3), .ofNat (64 + i / 9), .ofNat (i / 3 % 3)⟩).foldl Track.insert .empty
    let roll := MarkerRoll.empty.extend ⟨"main"⟩ [⟨⟨"A"⟩, .station, ⟨0, 65, 0⟩, none, none⟩]
    ¬ ((start {} block roll ⟨"main"⟩ .whole).step (.upTo Allowance.past)).used ≤
      2 * Allowance.clockStride := by
  intro block roll
  let job := start {} block roll ⟨"main"⟩ .whole
  have survey : job.stageCost = 3 := by decide +kernel
  have territory : 2 * Allowance.clockStride < job.ripe.handOver.1.stageCost := by decide +kernel
  have room : 2 * Allowance.clockStride < (Allowance.upTo Allowance.past).maxUnits := by decide
  have all : job.cost = job.stageCost + job.ripe.handOver.1.cost := cost_of_not_isDone rfl
  have least := stageCost_le_cost job.ripe.handOver.1
  rw [used_step_of_expired rfl, survey, if_pos (by decide)]
  show ¬ min job.cost _ ≤ _
  omega

end Job

end Signalbox
