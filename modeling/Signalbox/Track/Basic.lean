import Signalbox.Cell

/-!
# Track

The laid track of a world is a set of cells.  A cell is connected to the four cells beside it on its
own level and to those one level above or below them, so slopes are passable and vertical shafts are
not.

* `Track.mem_neighbors` : the neighbours of a cell are the laid cells among its twelve surroundings;
* `Track.length_neighbors_le` : there are never more than twelve.
-/

set_option autoImplicit false

namespace Signalbox

/-- The laid track. -/
structure Track where
  cells : Std.ExtTreeSet Cell

namespace Track

/-! ## Cells -/

def empty : Track := ⟨∅⟩

instance : Inhabited Track := ⟨empty⟩

instance : Membership Cell Track := ⟨fun t c => c ∈ t.cells⟩

instance (t : Track) (c : Cell) : Decidable (c ∈ t) := inferInstanceAs (Decidable (c ∈ t.cells))

theorem mem_def {t : Track} {c : Cell} : c ∈ t ↔ c ∈ t.cells := Iff.rfl

theorem ext {t u : Track} (h : ∀ c, c ∈ t ↔ c ∈ u) : t = u := by
  cases t; cases u
  exact congrArg Track.mk (Std.ExtTreeSet.ext_mem h)

/-- How many cells are laid. -/
def size (t : Track) : Nat := t.cells.size

def isEmpty (t : Track) : Bool := t.cells.isEmpty

/-- The laid cells in ascending order. -/
def toList (t : Track) : List Cell := t.cells.toList

def isTrack (t : Track) (c : Cell) : Bool := decide (c ∈ t)

def insert (t : Track) (c : Cell) : Track := ⟨t.cells.insert c⟩

def erase (t : Track) (c : Cell) : Track := ⟨t.cells.erase c⟩

@[simp] theorem not_mem_empty (c : Cell) : ¬ c ∈ empty := by simp [empty, mem_def]

@[simp] theorem mem_insert {t : Track} {c d : Cell} : d ∈ t.insert c ↔ d = c ∨ d ∈ t := by
  simp only [insert, mem_def, Std.ExtTreeSet.mem_insert, Std.compare_eq_iff_eq]
  exact or_congr_left eq_comm

@[simp] theorem mem_erase {t : Track} {c d : Cell} : d ∈ t.erase c ↔ d ≠ c ∧ d ∈ t := by
  simp only [erase, mem_def, Std.ExtTreeSet.mem_erase, ne_eq, Std.compare_eq_iff_eq]
  exact and_congr_left fun _ => not_congr eq_comm

@[simp] theorem mem_toList {t : Track} {c : Cell} : c ∈ t.toList ↔ c ∈ t := by
  simp [toList, mem_def]

/-! ## Counting -/

/-- How many laid cells have a property. -/
def count (t : Track) (p : Cell → Bool) : Nat := t.toList.countP p

theorem count_lt {t : Track} {p q : Cell → Bool} {c : Cell} (hc : c ∈ t)
    (himp : ∀ d, q d = true → p d = true) (hp : p c = true) (hq : q c = false) :
    t.count q < t.count p := by
  have hmem : c ∈ t.toList := mem_toList.2 hc
  unfold count
  generalize t.toList = l at hmem
  induction l with
  | nil => simp at hmem
  | cons d l ih =>
    have hle : l.countP q ≤ l.countP p := List.countP_mono_left fun d _ => himp d
    rw [List.countP_cons, List.countP_cons]
    by_cases h : d = c
    · subst h
      simp only [hp, hq, Bool.false_eq_true, if_true, if_false]
      omega
    · have hlt := ih (by simpa [Ne.symm h] using hmem)
      by_cases h2 : q d = true
      · rw [if_pos h2, if_pos (himp d h2)]
        omega
      · rw [if_neg h2]
        split <;> omega

/-! ## Neighbours -/

/-- The horizontal directions `(dx, dz)`, in the order in which neighbours are listed. -/
def directions : List (Int32 × Int32) := [(1, 0), (-1, 0), (0, 1), (0, -1)]

/-- Level first, then up, then down. -/
def slopes : List Int32 := [0, 1, -1]

/-- The twelve cells that a cell would be connected to if they held track. -/
def surroundings (c : Cell) : List Cell :=
  directions.flatMap fun (dx, dz) => slopes.map fun dy => c.offset dx dy dz

/-- The laid cells connected to a cell. -/
def neighbors (t : Track) (c : Cell) : List Cell := (surroundings c).filter t.isTrack

theorem mem_neighbors {t : Track} {c d : Cell} :
    d ∈ t.neighbors c ↔ d ∈ surroundings c ∧ d ∈ t := by
  simp [neighbors, isTrack]

theorem length_surroundings (c : Cell) : (surroundings c).length = 12 := rfl

theorem length_neighbors_le (t : Track) (c : Cell) : (t.neighbors c).length ≤ 12 :=
  Nat.le_trans (List.length_filter_le _ _) (Nat.le_of_eq (length_surroundings c))

/-- How many cells a cell is connected to. -/
def degree (t : Track) (c : Cell) : Nat := (t.neighbors c).length

/-- Where a cell is connected to three others or more, the track branches. -/
def isJunction (t : Track) (c : Cell) : Bool := decide (3 ≤ t.degree c)

end Track

end Signalbox
