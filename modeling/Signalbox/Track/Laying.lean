import Signalbox.Track.Basic

/-!
# Laying track

Track is laid and taken up cell by cell, in straight runs, and along a chain of way points.  A run
moves along `x` first, then along `z`; it climbs or falls one level with every step until it is on
the level of its end.

* `Track.mem_run_self` : a run starts at its start.
-/

set_option autoImplicit false

namespace Signalbox.Track

/-! ## Single cells -/

/-- Lay one cell, and say whether it held no track before. -/
def lay (t : Track) (c : Cell) : Track × Bool := (t.insert c, !t.isTrack c)

/-- Take up one cell, and say whether it held track. -/
def takeUp (t : Track) (c : Cell) : Track × Bool := (t.erase c, t.isTrack c)

/-! ## Runs -/

/-- One, zero or minus one, by the sign of a displacement. -/
def unitStep (d : Int32) : Int32 := if 0 < d then 1 else if d < 0 then -1 else 0

/-- The next cell of a run from `c` to `goal`. -/
def toward (c goal : Cell) : Cell :=
  let dy := unitStep (goal.y - c.y)
  if c.x ≠ goal.x then c.offset (unitStep (goal.x - c.x)) dy 0
  else if c.z ≠ goal.z then c.offset 0 dy (unitStep (goal.z - c.z))
  else c.offset 0 dy 0

/-- How far two coordinates are apart, the short way round. -/
def gap (a b : Int32) : Nat := (b - a).toInt.natAbs

/-- How far a run has still to go, axis by axis. -/
def runGap (c goal : Cell) : Nat := gap c.x goal.x + gap c.y goal.y + gap c.z goal.z

theorem gap_eq_zero {a b : Int32} : gap a b = 0 ↔ a = b := by
  rw [gap, Int.natAbs_eq_zero]
  constructor
  · intro h
    have h' : b - a = 0 := Int32.toInt_inj.1 (by simpa using h)
    grind
  · rintro rfl
    simp

theorem gap_unitStep {a b : Int32} (h : a ≠ b) : gap (a + unitStep (b - a)) b + 1 = gap a b := by
  have h0 : (b - a).toInt ≠ 0 := by
    intro h'
    exact h (gap_eq_zero.1 (by simpa [gap] using h'))
  have hd : b - (a + unitStep (b - a)) = (b - a) - unitStep (b - a) := by grind
  have hl := (b - a).le_toInt
  have hu := (b - a).toInt_lt
  simp only [gap, hd]
  unfold unitStep
  split
  · rename_i hpos
    have hpos' := Int32.lt_iff_toInt_lt.1 hpos
    rw [Int32.toInt_sub]
    simp only [Int32.toInt_zero] at hpos'
    have h1 : (1 : Int32).toInt = 1 := rfl
    rw [h1, Int.bmod_eq_of_le (by omega) (by omega)]
    omega
  · rename_i hpos
    split
    · rename_i hneg
      have hneg' := Int32.lt_iff_toInt_lt.1 hneg
      rw [Int32.toInt_sub]
      simp only [Int32.toInt_zero] at hneg'
      have h1 : (-1 : Int32).toInt = -1 := rfl
      rw [h1, Int.bmod_eq_of_le (by omega) (by omega)]
      omega
    · rename_i hneg
      rw [Int32.lt_iff_toInt_lt] at hpos hneg
      simp only [Int32.toInt_zero] at hpos hneg
      omega

theorem gap_unitStep_le (a b : Int32) : gap (a + unitStep (b - a)) b ≤ gap a b := by
  by_cases h : a = b
  · subst h
    have hd : a - a = 0 := by grind
    have hu : unitStep (a - a) = 0 := by rw [hd, unitStep, if_neg (by decide), if_neg (by decide)]
    exact Nat.le_of_eq (by rw [hu, Int32.add_zero])
  · have := gap_unitStep h; omega

theorem runGap_toward {c goal : Cell} (h : c ≠ goal) :
    runGap (toward c goal) goal < runGap c goal := by
  have hy := gap_unitStep_le c.y goal.y
  unfold toward runGap
  split
  · rename_i hx
    have := gap_unitStep hx
    simp only [Cell.offset, Int32.add_zero]; omega
  · rename_i hx
    split
    · rename_i hz
      have := gap_unitStep hz
      simp only [Cell.offset, Int32.add_zero]; omega
    · rename_i hz
      have hyne : c.y ≠ goal.y := by
        intro hy'
        apply h
        simp only [ne_eq, Decidable.not_not] at hx hz
        cases c; cases goal
        simp_all
      have := gap_unitStep hyne
      simp only [Cell.offset, Int32.add_zero]; omega

/-- The cells of the straight run from `c` to `goal`, both included, in travel order. -/
def run (c goal : Cell) : List Cell :=
  if c = goal then [c] else c :: run (toward c goal) goal
termination_by runGap c goal
decreasing_by rename_i h; exact runGap_toward h

theorem mem_run_self (c goal : Cell) : c ∈ run c goal := by
  rw [run]; split <;> simp

/-- Lay several cells, and count those that held no track before. -/
def layAll (t : Track) (cs : List Cell) : Track × Nat :=
  cs.foldl (fun (t, n) c => let (t, new) := t.lay c; (t, n + new.toNat)) (t, 0)

/-- Lay a straight run of track, and count the new cells. -/
def layLine (t : Track) (start goal : Cell) : Track × Nat := t.layAll (run start goal)

/-- Lay runs from each way point to the next, and count the new cells.  A single way point lays
nothing. -/
def layPath (t : Track) : List Cell → Track × Nat
  | a :: b :: rest =>
    let (t, n) := t.layLine a b
    let (t, m) := t.layPath (b :: rest)
    (t, n + m)
  | _ => (t, 0)

/-! ## Plans -/

/-- One step of laying. -/
inductive LayingStep where
  | cell (pos : Cell)
  | remove (pos : Cell)
  | line (start goal : Cell)
  | path (points : List Cell)

/-- The track after one step, and the number of cells it added or removed. -/
def carryOut (t : Track) : LayingStep → Track × Nat
  | .cell c => let (t, new) := t.lay c; (t, new.toNat)
  | .remove c => let (t, had) := t.takeUp c; (t, had.toNat)
  | .line a b => t.layLine a b
  | .path points => t.layPath points

/-- The track laid by a plan on empty ground. -/
def ofPlan (steps : List LayingStep) : Track :=
  steps.foldl (fun t s => (t.carryOut s).1) empty

end Signalbox.Track
