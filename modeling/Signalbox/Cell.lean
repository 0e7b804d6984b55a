import Signalbox.Numeral.Decimal
import Std.Data.ExtTreeMap
import Std.Data.ExtTreeSet

/-!
# Cells of the track lattice

The world is a lattice of cells `(x, y, z)` with `y` upwards.  Coordinates are 32-bit words, so a
displacement wraps at the rim of the world.  Cells are ordered by `x`, then `y`, then `z`.
-/

set_option autoImplicit false

namespace Signalbox

/-- One addressable cell; `y` is the level. -/
structure Cell where
  x : Int32
  y : Int32
  z : Int32
deriving DecidableEq, Inhabited, Hashable

namespace Cell

/-! ## Order -/

instance : Ord Cell :=
  ⟨compareLex (compareOn Cell.x) (compareLex (compareOn Cell.y) (compareOn Cell.z))⟩

instance : Std.TransOrd Cell :=
  inferInstanceAs (Std.TransCmp
    (compareLex (compareOn Cell.x) (compareLex (compareOn Cell.y) (compareOn Cell.z))))

theorem compare_def (a b : Cell) :
    compare a b = (compare a.x b.x).then ((compare a.y b.y).then (compare a.z b.z)) := rfl

instance : Std.LawfulEqOrd Cell where
  eq_of_compare {a b} h := by
    rw [compare_def, Ordering.then_eq_eq, Ordering.then_eq_eq] at h
    cases a; cases b
    simp_all

/-! ## Displacement and distance -/

/-- The cell displaced by `(dx, dy, dz)`. -/
def offset (c : Cell) (dx dy dz : Int32) : Cell := ⟨c.x + dx, c.y + dy, c.z + dz⟩

/-- The squared straight-line distance, in 64-bit words. -/
def distanceSq (a b : Cell) : Int64 :=
  let dx := (a.x - b.x).toInt64
  let dy := (a.y - b.y).toInt64
  let dz := (a.z - b.z).toInt64
  dx * dx + dy * dy + dz * dz

/-- The distance along the axes. -/
def manhattan (a b : Cell) : Nat :=
  (a.x.toInt - b.x.toInt).natAbs + (a.y.toInt - b.y.toInt).natAbs + (a.z.toInt - b.z.toInt).natAbs

/-! ## Text -/

/-- The coordinates in decimal, separated by commas. -/
def text (c : Cell) : String :=
  Decimal.ofInt c.x.toInt ++ "," ++ Decimal.ofInt c.y.toInt ++ "," ++ Decimal.ofInt c.z.toInt

instance : ToString Cell := ⟨text⟩

end Cell

end Signalbox
