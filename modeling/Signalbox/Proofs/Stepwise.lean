import Mathlib.Logic.Function.Iterate
import Signalbox.Allowance

/-!
# What stepwise work comes to

However stepwise work is cut into steps, it comes to the same end after the same number of units.
A step takes some units off the work that is left (`Stepwise.cost`) and leaves its end
(`Stepwise.finished`) where it is; so only whether work is finished depends on the allowances, and
not what it has become then.

* `Stepwise.finished_step`, `Stepwise.cost_step` : what one step does;
* `Stepwise.after_eq_finished` : work that some steps have finished is the finished work;
* `Stepwise.finished_induction` : what every unit of work keeps holds in the end;
* `Stepwise.finished_map`, `Stepwise.cost_map` : work that goes on inside other work comes to the
  same end there, in as many units;
* `Stepwise.cost_eq_of_count` : how many units work takes, from a count that every unit lowers;
* `Stepwise.exists_after_eq_iterate` : some steps are some number of units.
-/

set_option autoImplicit false

namespace Signalbox

namespace Allowance

theorem allows_of_deadline_none {b : Allowance} (hb : b.deadline = none) (used : Nat) :
    b.allows used = decide (used < b.maxUnits) := by
  simp [allows, hb]

end Allowance

namespace Stepwise

variable {σ : Type} [Stepwise σ]

/-! ## The units that are left -/

/-- How many units it takes to finish. -/
def cost (s : σ) : Nat := if isDone s = true then 0 else cost (advance s) + 1
termination_by work s
decreasing_by rename_i h; exact work_advance s (by simpa using h)

theorem cost_of_done {s : σ} (h : isDone s = true) : cost s = 0 := by
  rw [cost, if_pos h]

theorem cost_advance {s : σ} (h : isDone s = false) : cost s = cost (advance s) + 1 := by
  rw [cost, if_neg (by simp [h])]

theorem cost_eq_zero_iff {s : σ} : cost s = 0 ↔ isDone s = true := by
  cases hd : isDone s with
  | true => simp [cost_of_done hd]
  | false => simp [cost_advance hd]

/-- Work takes as many units as a count says that every unit lowers by one. -/
theorem cost_eq_of_count {P : σ → Prop} {count : σ → Nat}
    (keep : ∀ s, isDone s = false → P s → P (advance s))
    (ends : ∀ s, isDone s = true → P s → count s = 0)
    (unit : ∀ s, isDone s = false → P s → count s = count (advance s) + 1) {s : σ} (h : P s) :
    cost s = count s := by
  fun_induction cost s with
  | case1 s hd => exact (ends s hd h).symm
  | case2 s hd ih =>
    have busy : isDone s = false := by simpa using hd
    rw [ih (keep s busy h), unit s busy h]

theorem finished_of_done {s : σ} (h : isDone s = true) : finished s = s := by
  rw [finished, if_pos h]

theorem finished_advance {s : σ} (h : isDone s = false) : finished (advance s) = finished s := by
  rw [finished.eq_def s, if_neg (by simp [h])]

/-- What every unit of work keeps holds in the end. -/
theorem finished_induction {P : σ → Prop} (keep : ∀ s, isDone s = false → P s → P (advance s))
    {s : σ} (h : P s) : P (finished s) := by
  fun_induction finished s with
  | case1 s hd => exact h
  | case2 s hd ih => exact ih (keep s (by simpa using hd) h)

/-- Work that goes on inside other work comes to the same end there. -/
theorem finished_map {τ : Type} [Stepwise τ] (f : σ → τ) (done : ∀ s, isDone (f s) = isDone s)
    (unit : ∀ s, advance (f s) = f (advance s)) (s : σ) : finished (f s) = f (finished s) := by
  fun_induction finished s with
  | case1 s h => exact finished_of_done ((done s).trans h)
  | case2 s h ih =>
    have busy : isDone (f s) = false := (done s).trans (by simpa using h)
    rw [← finished_advance busy, unit, ih]

theorem cost_map {τ : Type} [Stepwise τ] (f : σ → τ) (done : ∀ s, isDone (f s) = isDone s)
    (unit : ∀ s, advance (f s) = f (advance s)) (s : σ) : cost (f s) = cost s := by
  fun_induction cost s with
  | case1 s h => exact cost_of_done ((done s).trans h)
  | case2 s h ih =>
    have busy : isDone (f s) = false := (done s).trans (by simpa using h)
    rw [cost_advance busy, unit, ih]

/-! ## Steps -/

theorem finished_stepFrom (b : Allowance) (used : Nat) (s : σ) :
    finished (stepFrom b used s).2 = finished s := by
  fun_induction stepFrom b used s with
  | case1 used s h ih => rw [ih, finished_advance h.2]
  | case2 => rfl

theorem cost_stepFrom (b : Allowance) (used : Nat) (s : σ) :
    (stepFrom b used s).1 + cost (stepFrom b used s).2 = used + cost s := by
  fun_induction stepFrom b used s with
  | case1 used s h ih => rw [ih, cost_advance h.2]; omega
  | case2 => rfl

/-- A step does not change what the work comes to. -/
@[simp] theorem finished_step (b : Allowance) (s : σ) : finished (step b s).2 = finished s :=
  finished_stepFrom b 0 s

/-- The units that a step uses are those by which it gets nearer to the end. -/
theorem cost_step (b : Allowance) (s : σ) : (step b s).1 + cost (step b s).2 = cost s := by
  rw [step, cost_stepFrom, Nat.zero_add]

theorem exists_stepFrom_eq_iterate (b : Allowance) (used : Nat) (s : σ) :
    ∃ n, (stepFrom b used s).2 = advance^[n] s := by
  fun_induction stepFrom b used s with
  | case1 used s h ih =>
    obtain ⟨n, hn⟩ := ih
    exact ⟨n + 1, hn⟩
  | case2 => exact ⟨0, rfl⟩

/-- Without a deadline a step stops only at the end of its units or of the work. -/
theorem stepFrom_of_deadline_none {b : Allowance} (hb : b.deadline = none) (used : Nat) (s : σ) :
    isDone (stepFrom b used s).2 = true ∨ b.maxUnits ≤ (stepFrom b used s).1 := by
  fun_induction stepFrom b used s with
  | case1 used s h ih => exact ih
  | case2 used s h =>
    rw [Allowance.allows_of_deadline_none hb, decide_eq_true_eq] at h
    cases hd : isDone s with
    | true => exact Or.inl rfl
    | false => exact Or.inr (Nat.not_lt.1 fun hu => h ⟨hu, hd⟩)

/-- Without a deadline, enough units finish the work in one step. -/
theorem isDone_step {b : Allowance} (hb : b.deadline = none) {s : σ} (h : cost s ≤ b.maxUnits) :
    isDone (step b s).2 = true := by
  rcases stepFrom_of_deadline_none hb 0 s with hd | hu
  · exact hd
  · have hc := cost_step b s
    rw [← cost_eq_zero_iff]
    unfold step at hc ⊢
    omega

/-! ## Several steps -/

/-- The work after one step for each allowance. -/
def after (bs : List Allowance) (s : σ) : σ := bs.foldl (fun s b => (step b s).2) s

theorem finished_after (bs : List Allowance) (s : σ) : finished (after bs s) = finished s := by
  induction bs generalizing s with
  | nil => rfl
  | cons b bs ih => exact (ih (step b s).2).trans (finished_step b s)

theorem exists_after_eq_iterate (bs : List Allowance) (s : σ) :
    ∃ n, after bs s = advance^[n] s := by
  induction bs generalizing s with
  | nil => exact ⟨0, rfl⟩
  | cons b bs ih =>
    obtain ⟨m, hm⟩ := exists_stepFrom_eq_iterate b 0 s
    obtain ⟨n, hn⟩ := ih (step b s).2
    exact ⟨n + m, hn.trans (by rw [step, hm, Function.iterate_add_apply])⟩

/-- **Work that some steps have finished is the finished work**, whatever the steps. -/
theorem after_eq_finished {bs : List Allowance} {s : σ} (h : isDone (after bs s) = true) :
    after bs s = finished s := by
  rw [← finished_after bs s, finished_of_done h]

end Stepwise

end Signalbox
