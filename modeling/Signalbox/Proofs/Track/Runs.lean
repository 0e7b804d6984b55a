import Mathlib.Logic.Function.Iterate
import Mathlib.Data.List.Nodup
import Signalbox.Numeral.Rounding
import Signalbox.Track.Laying
import Signalbox.Proofs.Track.Walk

/-!
# Straight runs

A run nears its end on two counts with every step: by one on its level, until it is above or below
its end, and by one in height, until it is on the level of its end.  So the larger of the two counts
tells how many steps it takes, and no cell is met twice.

A step that leads nowhere on the level is a step up a vertical shaft, which trains cannot take.  So a
run can be travelled exactly if it does not climb further than it goes on the level.

* `Track.run_eq_iterate`   : a run takes step after step and stops at its end;
* `Track.connected_of_run` : a run that is not too steep is connected;
* `Track.not_surrounds`    : the end of a run that is too steep is connected to none of its cells;
* `Track.layLine_exact`    : what laying a run comes to.
-/

set_option autoImplicit false

namespace Signalbox

/-! ## Distances -/

namespace Cell

variable {a b : Cell}

/-- No difference of coordinates on the way from one cell to another leaves a 32-bit word. -/
structure Spans (a b : Cell) : Prop where
  x : -negatives32 ≤ b.x.toInt - a.x.toInt ∧ b.x.toInt - a.x.toInt < negatives32
  y : -negatives32 ≤ b.y.toInt - a.y.toInt ∧ b.y.toInt - a.y.toInt < negatives32
  z : -negatives32 ≤ b.z.toInt - a.z.toInt ∧ b.z.toInt - a.z.toInt < negatives32

/-- How far one cell is from another along the axes of their level. -/
def levelDistance (a b : Cell) : Nat :=
  (b.x.toInt - a.x.toInt).natAbs + (b.z.toInt - a.z.toInt).natAbs

/-- How many levels one cell is above or below another. -/
def climb (a b : Cell) : Nat := (b.y.toInt - a.y.toInt).natAbs

end Cell

namespace Track

variable {t : Track} {c d start goal : Cell} {k : Nat}

/-! ## How far a run has to go -/

/-- How far a run has still to go on its level. -/
def levelGap (c goal : Cell) : Nat := gap c.x goal.x + gap c.z goal.z

/-- How many steps a run has still to take. -/
def stepsLeft (c goal : Cell) : Nat := max (levelGap c goal) (gap c.y goal.y)

theorem levelGap_self (c : Cell) : levelGap c c = 0 := by
  simp [levelGap, gap_eq_zero.2]

theorem stepsLeft_eq_zero_iff : stepsLeft c goal = 0 ↔ c = goal := by
  have zero : stepsLeft c goal = 0 ↔
      gap c.x goal.x = 0 ∧ gap c.y goal.y = 0 ∧ gap c.z goal.z = 0 := by
    simp only [stepsLeft, levelGap]
    omega
  rw [zero, gap_eq_zero, gap_eq_zero, gap_eq_zero]
  cases c; cases goal
  simp

theorem gap_step (a b : Int32) : gap (a + unitStep (b - a)) b = gap a b - 1 := by
  by_cases h : a = b
  · have still := gap_unitStep_le a b
    rw [gap_eq_zero.2 h] at still ⊢
    omega
  · have nearer := gap_unitStep h
    omega

theorem gap_y_toward (c goal : Cell) : gap (toward c goal).y goal.y = gap c.y goal.y - 1 := by
  unfold toward
  split
  · exact gap_step c.y goal.y
  · split <;> exact gap_step c.y goal.y

theorem levelGap_toward (c goal : Cell) : levelGap (toward c goal) goal = levelGap c goal - 1 := by
  unfold toward levelGap
  split
  · rename_i hx
    have nearer := gap_unitStep hx
    simp only [Cell.offset, Int32.add_zero]
    omega
  · rename_i hx
    have hx := gap_eq_zero.2 (Decidable.not_not.1 hx)
    split
    · have nearer := gap_step c.z goal.z
      simp only [Cell.offset, Int32.add_zero]
      omega
    · rename_i hz
      have hz := gap_eq_zero.2 (Decidable.not_not.1 hz)
      simp only [Cell.offset, Int32.add_zero]
      omega

theorem stepsLeft_toward (c goal : Cell) :
    stepsLeft (toward c goal) goal = stepsLeft c goal - 1 := by
  simp only [stepsLeft, levelGap_toward, gap_y_toward]
  omega

theorem stepsLeft_iterate (k : Nat) (c goal : Cell) :
    stepsLeft ((fun c => toward c goal)^[k] c) goal = stepsLeft c goal - k := by
  induction k generalizing c with
  | zero => rfl
  | succ k ih =>
    rw [Function.iterate_succ_apply, ih, stepsLeft_toward]
    omega

/-! ## The cells of a run -/

theorem iterate_stepsLeft (c goal : Cell) :
    (fun c => toward c goal)^[stepsLeft c goal] c = goal := by
  rw [← stepsLeft_eq_zero_iff, stepsLeft_iterate, Nat.sub_self]

theorem iterate_ne_goal (h : k < stepsLeft c goal) : (fun c => toward c goal)^[k] c ≠ goal := by
  rw [ne_eq, ← stepsLeft_eq_zero_iff, stepsLeft_iterate]
  omega

theorem run_eq_iterate (c goal : Cell) :
    run c goal =
      (List.range (stepsLeft c goal + 1)).map fun k => (fun c => toward c goal)^[k] c := by
  fun_induction run c goal with
  | case1 => simp [stepsLeft_eq_zero_iff.2 rfl]
  | case2 c ne ih =>
    have some_left : 0 < stepsLeft c goal :=
      Nat.pos_of_ne_zero fun h => ne (stepsLeft_eq_zero_iff.1 h)
    have count : stepsLeft (toward c goal) goal + 1 = stepsLeft c goal := by
      rw [stepsLeft_toward]
      omega
    rw [ih, count, List.range_succ_eq_map, List.map_cons, List.map_map]
    rfl

theorem length_run (c goal : Cell) : (run c goal).length = stepsLeft c goal + 1 := by
  simp [run_eq_iterate]

/-- No cell is met twice, since every step leaves one step less to go. -/
theorem nodup_run (c goal : Cell) : (run c goal).Nodup := by
  rw [run_eq_iterate]
  refine List.Nodup.map_on (fun k hk l hl same => ?_) List.nodup_range
  have left := congrArg (fun d => stepsLeft d goal) same
  simp only [stepsLeft_iterate] at left
  rw [List.mem_range] at hk hl
  omega

theorem head?_run (c goal : Cell) : (run c goal).head? = some c := by
  rw [run_eq_iterate, List.head?_map, List.head?_range]
  rfl

theorem getLast?_run (c goal : Cell) : (run c goal).getLast? = some goal := by
  rw [run_eq_iterate, List.getLast?_map, List.getLast?_range]
  simp [iterate_stepsLeft]

/-! ## Laying cells -/

theorem layAll_cons (t : Track) (c : Cell) (cs : List Cell) :
    t.layAll (c :: cs) =
      (((t.insert c).layAll cs).1, (!t.isTrack c).toNat + ((t.insert c).layAll cs).2) := by
  have steps (t : Track) (cs : List Cell) : t.layAll cs =
      cs.foldl (fun p c => ((p.1.lay c).1, p.2 + (p.1.lay c).2.toNat)) (t, 0) := rfl
  have counted (cs : List Cell) (p : Track × Nat) :
      cs.foldl (fun p c => ((p.1.lay c).1, p.2 + (p.1.lay c).2.toNat)) p =
        ((p.1.layAll cs).1, p.2 + (p.1.layAll cs).2) := by
    induction cs generalizing p with
    | nil => rfl
    | cons c cs ih =>
      simp only [steps, List.foldl_cons] at ih ⊢
      rw [ih, ih (_, 0 + _)]
      simp only [Prod.mk.injEq, true_and]
      omega
  rw [steps, List.foldl_cons, counted]
  simp [lay]

theorem mem_layAll {cs : List Cell} : d ∈ (t.layAll cs).1 ↔ d ∈ t ∨ d ∈ cs := by
  induction cs generalizing t with
  | nil => simp [layAll]
  | cons c cs ih =>
    rw [layAll_cons, ih, mem_insert, List.mem_cons]
    tauto

theorem size_insert (t : Track) (c : Cell) :
    (t.insert c).size = t.size + (!t.isTrack c).toNat := by
  unfold size insert isTrack
  rw [Std.ExtTreeSet.size_insert]
  by_cases h : c ∈ t <;> simp [h, ← mem_def]

theorem size_layAll (t : Track) (cs : List Cell) :
    (t.layAll cs).1.size = t.size + (t.layAll cs).2 := by
  induction cs generalizing t with
  | nil => rfl
  | cons c cs ih =>
    rw [layAll_cons, ih, size_insert]
    omega

/-- Of different cells, those are counted that held no track before. -/
theorem count_layAll {cs : List Cell} (distinct : cs.Nodup) :
    (t.layAll cs).2 = cs.countP fun c => !t.isTrack c := by
  induction cs generalizing t with
  | nil => rfl
  | cons c cs ih =>
    obtain ⟨fresh, distinct⟩ := List.nodup_cons.1 distinct
    have others : cs.countP (fun d => !(t.insert c).isTrack d) = cs.countP fun d => !t.isTrack d := by
      refine List.countP_congr fun d hd => ?_
      have ne : d ≠ c := fun h => fresh (h ▸ hd)
      simp [isTrack, ne]
    rw [layAll_cons, ih distinct, others, List.countP_cons]
    cases t.isTrack c <;> simp [Nat.add_comm]

/-! ## Whether a run can be travelled -/

theorem unitStep_mem_slopes (d : Int32) : unitStep d ∈ slopes := by
  unfold unitStep
  split
  · decide
  · split <;> decide

theorem unitStep_of_ne {a b : Int32} (h : a ≠ b) :
    unitStep (b - a) = 1 ∨ unitStep (b - a) = -1 := by
  have moves : unitStep (b - a) ≠ 0 := by
    intro still
    have nearer := gap_unitStep h
    rw [still, Int32.add_zero] at nearer
    omega
  unfold unitStep at moves ⊢
  grind

/-- A step that leads somewhere on the level leads to a surrounding cell. -/
theorem toward_mem_surroundings (h : 0 < levelGap c goal) :
    toward c goal ∈ surroundings c := by
  rw [mem_surroundings]
  unfold toward
  split
  · rename_i hx
    refine ⟨(unitStep (goal.x - c.x), 0), ?_, _, unitStep_mem_slopes _, rfl⟩
    rcases unitStep_of_ne hx with one | one <;> simp [one, directions]
  · rename_i hx
    split
    · rename_i hz
      refine ⟨(0, unitStep (goal.z - c.z)), ?_, _, unitStep_mem_slopes _, rfl⟩
      rcases unitStep_of_ne hz with one | one <;> simp [one, directions]
    · rename_i hz
      rw [levelGap, gap_eq_zero.2 (Decidable.not_not.1 hx), gap_eq_zero.2 (Decidable.not_not.1 hz)] at h
      omega

/-- **A run that is not too steep is connected.** -/
theorem connected_of_run (laid : ∀ d ∈ run c goal, d ∈ t)
    (gentle : gap c.y goal.y ≤ levelGap c goal) : t.Connected c goal := by
  fun_induction run c goal with
  | case1 => exact .refl t _
  | case2 c ne ih =>
    have ahead : 0 < levelGap c goal := by
      refine Nat.pos_of_ne_zero fun none => ne (stepsLeft_eq_zero_iff.1 ?_)
      simp only [stepsLeft]
      omega
    have next : toward c goal ∈ t := laid _ (List.mem_cons_of_mem _ (mem_run_self _ _))
    have one : t.Connected c (toward c goal) :=
      ⟨1, .one (mem_neighbors.2 ⟨toward_mem_surroundings ahead, next⟩)⟩
    refine one.trans (ih (fun d hd => laid d (List.mem_cons_of_mem _ hd)) ?_)
    rw [gap_y_toward, levelGap_toward]
    omega

/-- All along a run that is too steep, the end is further above or below than it is away. -/
theorem steep_of_mem_run (steep : levelGap c goal < gap c.y goal.y) (h : d ∈ run c goal) :
    d = goal ∨ levelGap d goal < gap d.y goal.y := by
  fun_induction run c goal with
  | case1 => exact Or.inl (List.mem_singleton.1 h)
  | case2 c ne ih =>
    rcases List.mem_cons.1 h with rfl | h
    · exact Or.inr steep
    · by_cases there : toward c goal = goal
      · rw [there, run, if_pos rfl] at h
        exact Or.inl (List.mem_singleton.1 h)
      · refine ih ?_ h
        have left : stepsLeft (toward c goal) goal ≠ 0 := fun zero =>
          there (stepsLeft_eq_zero_iff.1 zero)
        simp only [stepsLeft, levelGap_toward, gap_y_toward] at left ⊢
        omega

/-- A cell that another one surrounds is one step away on the level, and at most one above or
below. -/
theorem gaps_of_surrounds (h : goal ∈ surroundings c) :
    levelGap c goal = 1 ∧ gap c.y goal.y ≤ 1 := by
  obtain ⟨p, hp, dy, hy, rfl⟩ := mem_surroundings.1 h
  have shift (a k : Int32) : gap a (a + k) = k.toInt.natAbs := by
    have difference : a + k - a = k := by grind
    rw [gap, difference]
  simp only [levelGap, Cell.offset, shift]
  simp only [directions, slopes, List.mem_cons, List.not_mem_nil, or_false] at hp hy
  constructor
  · rcases hp with rfl | rfl | rfl | rfl <;> rfl
  · rcases hy with rfl | rfl | rfl <;> decide

/-- **The end of a run that is too steep is connected to none of its cells.** -/
theorem not_surrounds (steep : levelGap c goal < gap c.y goal.y) (h : d ∈ run c goal) :
    goal ∉ surroundings d := by
  intro beside
  obtain ⟨away, above⟩ := gaps_of_surrounds beside
  rcases steep_of_mem_run steep h with rfl | steeper
  · rw [levelGap_self] at away
    omega
  · omega

/-- On otherwise empty ground, a run can be travelled exactly if it is not too steep. -/
theorem connected_layLine_iff (start goal : Cell) :
    (empty.layLine start goal).1.Connected start goal ↔
      gap start.y goal.y ≤ levelGap start goal := by
  have laid (d : Cell) : d ∈ (empty.layLine start goal).1 ↔ d ∈ run start goal := by
    simp [layLine, mem_layAll]
  refine ⟨?travelled, connected_of_run fun d hd => (laid d).2 hd⟩
  case travelled =>
    rintro ⟨n, walk⟩
    by_contra steep
    rw [Nat.not_le] at steep
    cases walk with
    | here =>
      rw [gap_eq_zero.2 rfl] at steep
      omega
    | step before last =>
      have on_run := before.mem ((laid start).2 (mem_run_self start goal))
      exact not_surrounds steep ((laid _).1 on_run) (mem_neighbors.1 last).1

/-! ## Without overflow -/

theorem gap_eq_natAbs {a b : Int32}
    (fits : -negatives32 ≤ b.toInt - a.toInt ∧ b.toInt - a.toInt < negatives32) :
    gap a b = (b.toInt - a.toInt).natAbs := by
  simp only [negatives32] at fits
  rw [gap, Int32.toInt_sub, Int.bmod_eq_of_le_mul_two (by omega) (by omega)]

theorem levelGap_eq (h : Cell.Spans start goal) : levelGap start goal = start.levelDistance goal := by
  rw [levelGap, gap_eq_natAbs h.x, gap_eq_natAbs h.z, Cell.levelDistance]

theorem gap_y_eq (h : Cell.Spans start goal) : gap start.y goal.y = start.climb goal :=
  gap_eq_natAbs h.y

/-- **What laying a run comes to.**  Step after step, the run is at its end after as many steps as
the larger of its distance on the level and its climb, and not before.  It has one cell more than
steps, all different, from its start to its end.  These are added to the track; those that held no
track before are counted, and the track grows by as many.  On empty ground the end can be reached
from the start exactly if the run does not climb further than it goes on the level. -/
theorem layLine_exact (t : Track) (h : Cell.Spans start goal) :
    let steps := max (start.levelDistance goal) (start.climb goal)
    let cells := (List.range (1 + steps)).map fun k => (fun c => toward c goal)^[k] start
    ((fun c => toward c goal)^[steps] start = goal ∧
      ∀ k < steps, (fun c => toward c goal)^[k] start ≠ goal) ∧
    (cells.length = 1 + steps ∧ cells.Nodup ∧
      cells.head? = some start ∧ cells.getLast? = some goal) ∧
    (∀ c, c ∈ (t.layLine start goal).1 ↔ c ∈ t ∨ c ∈ cells) ∧
    (t.layLine start goal).2 = (cells.countP fun c => !t.isTrack c) ∧
    (t.layLine start goal).1.size = t.size + (t.layLine start goal).2 ∧
    ((empty.layLine start goal).1.Connected start goal ↔
      start.climb goal ≤ start.levelDistance goal) := by
  have count : max (start.levelDistance goal) (start.climb goal) = stepsLeft start goal := by
    rw [stepsLeft, levelGap_eq h, gap_y_eq h]
  intro steps cells
  have cells_eq : cells = run start goal := by
    rw [run_eq_iterate, ← count, Nat.add_comm]
  rw [cells_eq, ← levelGap_eq h, ← gap_y_eq h, show steps = stepsLeft start goal from count]
  refine ⟨⟨iterate_stepsLeft start goal, fun k => iterate_ne_goal⟩, ⟨?length, nodup_run _ _,
    head?_run _ _, getLast?_run _ _⟩, fun c => mem_layAll, count_layAll (nodup_run _ _),
    size_layAll _ _, connected_layLine_iff start goal⟩
  case length => rw [length_run, Nat.add_comm]

/-- A run that climbs one level more than it goes on the level lays seven cells, one of which held
track before, and its end cannot be reached. -/
theorem layLine_exact_shaft :
    let track := empty.insert ⟨2, 66, 0⟩
    let start : Cell := ⟨0, 64, 0⟩
    let goal : Cell := ⟨3, 70, -2⟩
    Cell.Spans start goal ∧
      (track.layLine start goal).2 = 6 ∧
      ¬ (empty.layLine start goal).1.Connected start goal := by
  intro track start goal
  have spans : Cell.Spans start goal := ⟨by decide, by decide, by decide⟩
  obtain ⟨-, -, -, count, -, travelled⟩ := layLine_exact track spans
  refine ⟨spans, ?_, ?_⟩
  · rw [count]
    decide +kernel
  · rw [travelled]
    decide

end Track

end Signalbox
