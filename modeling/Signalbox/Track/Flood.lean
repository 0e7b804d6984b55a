import Signalbox.Queue
import Signalbox.Track.Basic

/-!
# Flooding connected track

To find the track that is connected to some start cells, cells are reached one after the other: a
reached cell waits in a queue until its own neighbours are reached from it.

* `Flood.left_advance?` : every advance lowers the number of cells waiting or not yet reached.
-/

set_option autoImplicit false

namespace Signalbox

/-- The cells reached so far and, in the order in which they were reached, those of them whose
neighbours are still to be looked at. -/
structure Flood where
  reached : Std.ExtTreeSet Cell := ∅
  queue : Queue Cell := .empty

namespace Flood

/-- The flood when a cell is reached, again or for the first time. -/
def enter (f : Flood) (c : Cell) : Flood :=
  if c ∈ f.reached then f else ⟨f.reached.insert c, f.queue.push c⟩

/-- The flood when several cells are reached in turn. -/
def enterAll (f : Flood) (cs : List Cell) : Flood := cs.foldl enter f

/-- Reach the neighbours of the first waiting cell, if any cell is waiting. -/
def advance? (t : Track) (f : Flood) : Option Flood :=
  match f.queue.pop? with
  | none => none
  | some (c, queue) => some (enterAll { f with queue } (t.neighbors c))

/-! ## Progress -/

/-- How many laid cells are not reached. -/
def unreached (t : Track) (f : Flood) : Nat := t.count fun c => decide (c ∉ f.reached)

/-- How many cells are waiting or not reached. -/
def left (t : Track) (f : Flood) : Nat := f.queue.length + f.unreached t

theorem unreached_insert_lt {t : Track} {f : Flood} {c : Cell} {q : Queue Cell}
    (ht : c ∈ t) (hc : c ∉ f.reached) :
    unreached t ⟨f.reached.insert c, q⟩ < f.unreached t := by
  refine Track.count_lt ht (fun d hd => ?_) (by simpa using hc) (by simp)
  simp only [decide_eq_true_eq, Std.ExtTreeSet.mem_insert, not_or] at hd ⊢
  exact hd.2

theorem left_enter_le {t : Track} {f : Flood} {c : Cell} (ht : c ∈ t) :
    (f.enter c).left t ≤ f.left t := by
  unfold enter
  split
  · exact Nat.le_refl _
  · rename_i hc
    have := unreached_insert_lt (q := f.queue.push c) ht hc
    simp only [left, Queue.length_push]
    omega

theorem left_enterAll_le {t : Track} {cs : List Cell} (f : Flood) (ht : ∀ c ∈ cs, c ∈ t) :
    (f.enterAll cs).left t ≤ f.left t := by
  induction cs generalizing f with
  | nil => exact Nat.le_refl _
  | cons c cs ih =>
    have h1 := left_enter_le (f := f) (ht c (by simp))
    have h2 := ih (f.enter c) fun d hd => ht d (by simp [hd])
    exact Nat.le_trans h2 h1

theorem left_advance? {t : Track} {f g : Flood} (h : f.advance? t = some g) :
    g.left t < f.left t := by
  unfold advance? at h
  split at h
  · simp at h
  · rename_i c q hq
    simp only [Option.some.injEq] at h
    subst h
    have h1 : (enterAll { f with queue := q } (t.neighbors c)).left t ≤ _ :=
      left_enterAll_le _ fun d hd => (Track.mem_neighbors.1 hd).2
    have h2 := Queue.length_of_pop? hq
    have h3 : unreached t { f with queue := q } = f.unreached t := rfl
    simp only [left, h3] at h1 ⊢
    omega

end Flood

end Signalbox
