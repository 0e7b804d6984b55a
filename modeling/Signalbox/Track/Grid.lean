import Signalbox.Track.Laying
import Signalbox.Track.Nearest

/-!
# Grids

A grid keeps laid track twice: as a set of cells, in which it is looked up what holds track and which
cells are connected, and as points in a spatial index, from which the track near a position is taken.
A cell that is laid or taken up goes into both or out of both, one at a time; a cell that is laid
again goes into neither.

The spatial index is any that keeps points and lists them by their distance (`PointIndex`).

* `Grid.nearest` : the track near a position, read off the front of such a list.
-/

set_option autoImplicit false

namespace Signalbox

/-! ## Points -/

/-- A point in space.  Its coordinates are whole numbers that double precision holds exactly. -/
structure Point where
  x : Int
  y : Int
  z : Int
deriving DecidableEq, Inhabited

/-- Where a cell is. -/
def Cell.point (c : Cell) : Point := ⟨c.x.toInt, c.y.toInt, c.z.toInt⟩

namespace Point

/-- The cell at a point.  Coordinates beyond the rim of the world count as on the rim. -/
def cell (p : Point) : Cell :=
  ⟨Int32.ofIntClamp p.x, Int32.ofIntClamp p.y, Int32.ofIntClamp p.z⟩

/-- The squared distance of two points with every intermediate result rounded to 53 digits. -/
def separation (p q : Point) : Nat :=
  let sq (d : Int) : Nat := Rounding.roundBits 53 (d.natAbs * d.natAbs)
  Rounding.roundBits 53
    (Rounding.roundBits 53 (sq (p.x - q.x) + sq (p.y - q.y)) + sq (p.z - q.z))

end Point

/-! ## Spatial indexes -/

/-- A spatial index with states of type `σ`. -/
structure PointIndex (σ : Type) where
  empty : σ
  insert : σ → Point → σ
  remove : σ → Point → σ
  /-- The points with their squared distances from a position, the nearest first. -/
  byDistance : σ → Point → List (Point × Nat)

/-- Laid track, and a spatial index of it. -/
structure Grid (σ : Type) where
  laid : Track
  index : σ

namespace Grid

variable {σ : Type} (ix : PointIndex σ)

def empty : Grid σ := ⟨.empty, ix.empty⟩

/-! ## Laying -/

/-- Lay one cell, and say whether it held no track before. -/
def lay (g : Grid σ) (c : Cell) : Grid σ × Bool :=
  if c ∈ g.laid then (g, false)
  else ({ laid := g.laid.insert c, index := ix.insert g.index c.point }, true)

/-- Take up one cell, and say whether it held track. -/
def takeUp (g : Grid σ) (c : Cell) : Grid σ × Bool :=
  if c ∈ g.laid then
    ({ laid := g.laid.erase c, index := ix.remove g.index c.point }, true)
  else (g, false)

def layAll (g : Grid σ) (cs : List Cell) : Grid σ × Nat :=
  cs.foldl (fun (g, n) c => let (g, new) := g.lay ix c; (g, n + new.toNat)) (g, 0)

def layLine (g : Grid σ) (start goal : Cell) : Grid σ × Nat := g.layAll ix (Track.run start goal)

def layPath (g : Grid σ) : List Cell → Grid σ × Nat
  | a :: b :: rest =>
    let (g, n) := g.layLine ix a b
    let (g, m) := g.layPath (b :: rest)
    (g, n + m)
  | _ => (g, 0)

/-- The grid after one step, and the number of cells it added or removed. -/
def carryOut (g : Grid σ) : Track.LayingStep → Grid σ × Nat
  | .cell c => let (g, new) := g.lay ix c; (g, new.toNat)
  | .remove c => let (g, had) := g.takeUp ix c; (g, had.toNat)
  | .line a b => g.layLine ix a b
  | .path points => g.layPath ix points

/-- The grid that a plan makes of empty ground. -/
def ofPlan (steps : List Track.LayingStep) : Grid σ :=
  steps.foldl (fun g s => (g.carryOut ix s).1) (empty ix)

/-! ## Queries -/

def isTrack (g : Grid σ) (c : Cell) : Bool := g.laid.isTrack c

def neighbors (g : Grid σ) (c : Cell) : List Cell := g.laid.neighbors c

/-- The laid cells nearest to `p` in ascending order, none if they lie beyond the radius.  The first
point listed tells the least distance; those that tie with it stand right behind it. -/
def nearest (g : Grid σ) (p : Cell) (radius : UInt32) : List Cell :=
  match ix.byDistance g.index p.point with
  | [] => []
  | (first, best) :: others =>
    if Rounding.roundBits 53 (radius.toNat * radius.toNat) < best then []
    else
      let tied := others.takeWhile fun e => e.2 ≤ best
      (first.cell :: tied.map fun e => e.1.cell).mergeSort fun a b => (compare a b).isLE

end Grid

end Signalbox
