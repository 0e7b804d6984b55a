import Signalbox.Time

/-!
# Work allowances and stepwise work

Long work is done in units, and whoever drives it hands out an `Allowance` for each call: a number
of units and, if wanted, a deadline.  The clock is looked at only after every 64 units, so the
first unit of a call is always done.

Work that is done unit by unit is `Stepwise`: it can be told whether it is finished, it can do one
more unit, and it has a bound on the units left that every unit lowers.

* `Stepwise.step`      : spend an allowance, and say how many units were used;
* `Stepwise.work_step` : a step that may spend anything lowers the bound of unfinished work.
-/

set_option autoImplicit false

namespace Signalbox

/-- How many units a call may spend.  `open? n` of a deadline says whether the clock, read when
`n` units have been spent, is still before the deadline. -/
structure Allowance where
  maxUnits : Nat
  deadline : Option (Nat → Bool)

namespace Allowance

/-- How many units go by between two looks at the clock. -/
def clockStride : Nat := 64

/-- At most `n` units, but at least one. -/
def units (n : Nat) : Allowance := ⟨max n 1, none⟩

/-- As much as is needed. -/
def unbounded : Allowance := ⟨maxWord, none⟩

/-- As much as fits before the deadline. -/
def upTo (clock : Nat → Bool) : Allowance := ⟨maxWord, some clock⟩

/-- The same units, but only before the deadline. -/
def withDeadline (b : Allowance) (clock : Nat → Bool) : Allowance :=
  { b with deadline := some clock }

/-- What a caller gets who asks for nothing in particular. -/
def standard : Allowance := units 4096

def past : Nat → Bool := fun _ => false

def future : Nat → Bool := fun _ => true

/-- Whether one more unit may be spent after `used` units. -/
def allows (b : Allowance) (used : Nat) : Bool :=
  decide (used < b.maxUnits) &&
    match b.deadline with
    | some clock => if 0 < used ∧ used % clockStride = 0 then clock used else true
    | none => true

/-- What is left of the allowance after `used` units; the deadline stays where it is. -/
def remaining (b : Allowance) (used : Nat) : Allowance :=
  ⟨b.maxUnits - used, b.deadline.map fun clock n => clock (used + n)⟩

theorem allows_zero (b : Allowance) : b.allows 0 = decide (0 < b.maxUnits) := by
  unfold allows
  cases b.deadline <;> simp

theorem lt_of_allows {b : Allowance} {used : Nat} (h : b.allows used = true) :
    used < b.maxUnits := by
  unfold allows at h
  simp only [Bool.and_eq_true, decide_eq_true_eq] at h
  exact h.1

end Allowance

/-! ## Stepwise work -/

/-- Work done one unit at a time.  `work` bounds the units that are left. -/
class Stepwise (σ : Type) where
  isDone : σ → Bool
  advance : σ → σ
  work : σ → Nat
  work_advance : ∀ s, isDone s = false → work (advance s) < work s

namespace Stepwise

variable {σ : Type} [Stepwise σ]

/-- Do units until the work is finished or the allowance is spent, starting with `used` spent. -/
def stepFrom (b : Allowance) (used : Nat) (s : σ) : Nat × σ :=
  if b.allows used = true ∧ isDone s = false then stepFrom b (used + 1) (advance s)
  else (used, s)
termination_by b.maxUnits - used
decreasing_by rename_i h; have := Allowance.lt_of_allows h.1; omega

/-- Spend an allowance: the units used, and the work as it stands afterwards. -/
def step (b : Allowance) (s : σ) : Nat × σ := stepFrom b 0 s

theorem stepFrom_of_done {b : Allowance} {used : Nat} {s : σ} (h : isDone s = true) :
    stepFrom b used s = (used, s) := by
  rw [stepFrom, if_neg]; simp [h]

theorem step_of_done {b : Allowance} {s : σ} (h : isDone s = true) : step b s = (0, s) :=
  stepFrom_of_done h

theorem le_fst_stepFrom (b : Allowance) (used : Nat) (s : σ) : used ≤ (stepFrom b used s).1 := by
  fun_induction stepFrom b used s with
  | case1 used s h ih => omega
  | case2 => simp

theorem work_stepFrom (b : Allowance) (used : Nat) (s : σ) :
    (stepFrom b used s).1 + work (stepFrom b used s).2 ≤ used + work s := by
  fun_induction stepFrom b used s with
  | case1 used s h ih => have := work_advance s h.2; omega
  | case2 => simp

/-- Unfinished work gets less by every step that may spend a unit. -/
theorem work_step {b : Allowance} {s : σ} (hb : 0 < b.maxUnits) (hs : isDone s = false) :
    work (step b s).2 < work s := by
  have h0 : b.allows 0 = true := by simp [Allowance.allows_zero, hb]
  rw [step, stepFrom, if_pos ⟨h0, hs⟩]
  have h1 := work_stepFrom b 1 (advance s)
  have h2 := work_advance s hs
  have h3 := le_fst_stepFrom b 1 (advance s)
  simp only [Nat.zero_add]
  omega

/-- Take one step for each allowance in turn, keeping every state on the way. -/
def steps (bs : List Allowance) (s : σ) : List (Nat × σ) :=
  match bs with
  | [] => []
  | b :: bs => step b s :: steps bs (step b s).2

/-- Step with the same allowance until the work is finished, keeping every state on the way.  An
allowance of no units gets nowhere and is not used. -/
def stepsToEnd (b : Allowance) (s : σ) : List (Nat × σ) :=
  if 0 < b.maxUnits ∧ isDone s = false then step b s :: stepsToEnd b (step b s).2 else []
termination_by work s
decreasing_by rename_i h; exact work_step h.1 h.2

/-- One step for each allowance, then the last of them over and over until the work is finished. -/
def trace (bs : List Allowance) (s : σ) : List (Nat × σ) :=
  let first := steps bs s
  let reached := (first.getLast?.map Prod.snd).getD s
  first ++ stepsToEnd (bs.getLast?.getD .unbounded) reached

def finished (s : σ) : σ := if isDone s = true then s else finished (advance s)
termination_by work s
decreasing_by rename_i h; exact work_advance s (by simpa using h)

theorem isDone_finished (s : σ) : isDone (finished s) = true := by
  fun_induction finished s with
  | case1 s h => exact h
  | case2 s h ih => exact ih

end Stepwise

end Signalbox
