import Signalbox.Track.Basic

/-!
# Walks over track

A walk goes from cell to neighbouring laid cell.  Between laid cells every walk can be gone back, so
being joined by a walk divides the track into connected parts.

* `Track.mem_neighbors_symm` : laid cells are neighbours of their neighbours;
* `Track.Walk.symm`          : a walk back has as many steps;
* `Track.WalkIn.symm`        : also one over cells that have some property;
* `Track.Connected.trans`    : cells connected to the same cell are connected.
-/

set_option autoImplicit false

namespace Signalbox

namespace Track

variable {t : Track} {a b c d : Cell} {m n : Nat}

/-! ## Neighbours -/

theorem mem_surroundings : d ∈ surroundings c ↔
    ∃ p ∈ directions, ∃ dy ∈ slopes, d = c.offset p.1 dy p.2 := by
  unfold surroundings
  simp only [List.mem_flatMap, List.mem_map, eq_comm]

theorem neg_mem_directions {p : Int32 × Int32} (h : p ∈ directions) :
    (-p.1, -p.2) ∈ directions := by
  simp only [directions, List.mem_cons, List.not_mem_nil, or_false] at h
  rcases h with rfl | rfl | rfl | rfl <;> decide

theorem neg_mem_slopes {dy : Int32} (h : dy ∈ slopes) : -dy ∈ slopes := by
  simp only [slopes, List.mem_cons, List.not_mem_nil, or_false] at h
  rcases h with rfl | rfl | rfl <;> decide

/-- A displacement is undone by the opposite one, also across the rim of the world. -/
theorem offset_neg (c : Cell) (dx dy dz : Int32) :
    (c.offset dx dy dz).offset (-dx) (-dy) (-dz) = c := by
  simp only [Cell.offset, Int32.add_assoc, Int32.add_right_neg, Int32.add_zero]

theorem mem_surroundings_symm (h : d ∈ surroundings c) : c ∈ surroundings d := by
  obtain ⟨p, hp, dy, hy, rfl⟩ := mem_surroundings.1 h
  exact mem_surroundings.2
    ⟨(-p.1, -p.2), neg_mem_directions hp, -dy, neg_mem_slopes hy, (offset_neg c _ _ _).symm⟩

theorem mem_of_mem_neighbors (h : d ∈ t.neighbors c) : d ∈ t := (mem_neighbors.1 h).2

theorem mem_neighbors_symm (hc : c ∈ t) (h : d ∈ t.neighbors c) : c ∈ t.neighbors d :=
  mem_neighbors.2 ⟨mem_surroundings_symm (mem_neighbors.1 h).1, hc⟩

/-! ## Walks -/

/-- `n` steps from neighbour to neighbour lead from `a` to another cell. -/
inductive Walk (t : Track) (a : Cell) : Cell → Nat → Prop
  | here : Walk t a a 0
  | step {c d : Cell} {n : Nat} : Walk t a c n → d ∈ t.neighbors c → Walk t a d (n + 1)

namespace Walk

theorem one (h : d ∈ t.neighbors c) : t.Walk c d 1 := .step .here h

theorem eq_of_zero (h : t.Walk a b 0) : b = a := by
  cases h
  rfl

theorem eq_of_alone (alone : t.neighbors a = []) (h : t.Walk a b n) : b = a := by
  induction h with
  | here => rfl
  | step _ hd ih =>
    rw [ih, alone] at hd
    cases hd

theorem trans (h : t.Walk a b m) (k : t.Walk b c n) : t.Walk a c (m + n) := by
  induction k with
  | here => exact h
  | step _ hd ih => exact .step ih hd

theorem mem (ha : a ∈ t) (h : t.Walk a b n) : b ∈ t := by
  cases h with
  | here => exact ha
  | step _ hd => exact mem_of_mem_neighbors hd

theorem symm (ha : a ∈ t) (h : t.Walk a b n) : t.Walk b a n := by
  induction h with
  | here => exact .here
  | @step c d n hw hd ih =>
    have back : t.Walk d c 1 := one (mem_neighbors_symm (hw.mem ha) hd)
    rw [Nat.add_comm]
    exact back.trans ih

end Walk

/-- `n` steps lead from `a` to another cell, and all cells on the way have a property. -/
inductive WalkIn (t : Track) (P : Cell → Prop) (a : Cell) : Cell → Nat → Prop
  | here : P a → WalkIn t P a a 0
  | step {c d : Cell} {n : Nat} :
    WalkIn t P a c n → d ∈ t.neighbors c → P d → WalkIn t P a d (n + 1)

namespace WalkIn

variable {P Q : Cell → Prop}

theorem walk (h : t.WalkIn P a b n) : t.Walk a b n := by
  induction h with
  | here => exact .here
  | step _ hd _ ih => exact .step ih hd

theorem mono (weaker : ∀ c, P c → Q c) (h : t.WalkIn P a b n) : t.WalkIn Q a b n := by
  induction h with
  | here ha => exact .here (weaker a ha)
  | step _ hd hP ih => exact .step ih hd (weaker _ hP)

theorem last (h : t.WalkIn P a b n) : P b := by
  cases h with
  | here ha => exact ha
  | step _ _ hb => exact hb

theorem trans (h : t.WalkIn P a b m) (k : t.WalkIn P b c n) : t.WalkIn P a c (m + n) := by
  induction k with
  | here => exact h
  | step _ hd hP ih => exact .step ih hd hP

theorem symm (ha : a ∈ t) (h : t.WalkIn P a b n) : t.WalkIn P b a n := by
  induction h with
  | here hP => exact .here hP
  | @step c d n hw hd hP ih =>
    have back : t.WalkIn P d c 1 := .step (.here hP) (mem_neighbors_symm (hw.walk.mem ha) hd) hw.last
    rw [Nat.add_comm]
    exact back.trans ih

end WalkIn

/-- A walk from stop to stop, in the order of the stops, of `n` steps altogether. -/
inductive Tour (t : Track) : List Cell → Nat → Prop
  | stop (a : Cell) : Tour t [a] 0
  | leg {a b : Cell} {stops : List Cell} {m n : Nat} :
    t.Walk a b m → Tour t (b :: stops) n → Tour t (a :: b :: stops) (m + n)

namespace Tour

variable {stops : List Cell}

theorem extend (h : t.Tour (stops ++ [a]) m) (hw : t.Walk a b n) :
    t.Tour (stops ++ [a, b]) (m + n) := by
  induction stops generalizing m with
  | nil =>
    cases h
    rw [Nat.zero_add]
    exact .leg hw (.stop b)
  | cons c stops ih =>
    cases stops with
    | nil =>
      cases h with
      | leg hc rest =>
        rw [Nat.add_assoc]
        exact .leg hc (ih rest)
    | cons d stops =>
      cases h with
      | leg hc rest =>
        rw [Nat.add_assoc]
        exact .leg hc (ih rest)

theorem walk (h : t.Tour (a :: stops) n) : t.Walk a ((a :: stops).getLast (by simp)) n := by
  induction stops generalizing a n with
  | nil =>
    cases h
    exact .here
  | cons b stops ih =>
    cases h with
    | leg hw rest => exact hw.trans (ih rest)

end Tour

/-- Some walk leads from one cell to the other. -/
def Connected (t : Track) (a b : Cell) : Prop := ∃ n, t.Walk a b n

namespace Connected

theorem refl (t : Track) (a : Cell) : t.Connected a a := ⟨0, .here⟩

theorem trans (h : t.Connected a b) (k : t.Connected b c) : t.Connected a c := by
  obtain ⟨m, hm⟩ := h
  obtain ⟨n, hn⟩ := k
  exact ⟨m + n, hm.trans hn⟩

theorem symm (ha : a ∈ t) (h : t.Connected a b) : t.Connected b a := by
  obtain ⟨n, hn⟩ := h
  exact ⟨n, hn.symm ha⟩

end Connected

end Track

end Signalbox
