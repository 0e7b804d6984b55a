import Signalbox.Numeral.Decimal
import Signalbox.Numeral.Rounding

/-!
# The shortest decimal that reads back

A positive floating-point value `m * 2 ^ e` stands for every real number that rounds to it.  Its
shortest decimal is the one with the fewest digits in that interval, and of two with equally many
the nearer.  The interval holds its ends exactly when `m` is even.

`Shortest.ofBinary` finds it by exact arithmetic, from coarse decimal grids to fine ones: on each
grid only the two neighbours of the value can be the answer.  A `DecimalLayout` says how the digits
are set out.
-/

set_option autoImplicit false

namespace Signalbox

/-- A decimal `coefficient * 10 ^ exponent`. -/
structure DecimalValue where
  coefficient : Nat
  exponent : Int
deriving DecidableEq, Inhabited

namespace Shortest

/-- Which of two equally near decimals is taken. -/
inductive Tie where
  | up
  | even
deriving DecidableEq

/-- The neighbour of `m * 2 ^ e` on the grid of multiples of `10 ^ k` that rounds to it, if one of
the two does.  `narrow` says that the gap below the value is half the gap above it. -/
def onGrid (tie : Tie) (m : Nat) (e : Int) (narrow : Bool) (k : Int) : Option Nat :=
  -- `c * 10 ^ k` against `t * 2 ^ (e - 2)` is `c * decimal` against `t * binary`
  let binary := twoTo (e - 2).toNat * tenTo (-k).toNat
  let decimal := tenTo k.toNat * twoTo (2 - e).toNat
  let value := 4 * m * binary
  let low := (if narrow then 4 * m - 1 else 4 * m - 2) * binary
  let high := (4 * m + 2) * binary
  let inside (c : Nat) : Bool :=
    if m % 2 = 0 then low ≤ c * decimal && c * decimal ≤ high
    else low < c * decimal && c * decimal < high
  let below := value / decimal
  let above := below + 1
  match inside below, inside above with
  | true, false => some below
  | false, true => some above
  | false, false => none
  | true, true =>
    let down := value - below * decimal
    let up := above * decimal - value
    if down < up then some below
    else if up < down then some above
    else match tie with
      | .up => some above
      | .even => some (below + below % 2)

/-- The coefficient without its trailing zeros. -/
def strip (fuel : Nat) (d : DecimalValue) : DecimalValue :=
  match fuel with
  | 0 => d
  | fuel + 1 =>
    if d.coefficient ≠ 0 ∧ d.coefficient % 10 = 0 then
      strip fuel ⟨d.coefficient / 10, d.exponent + 1⟩
    else d

/-- The shortest decimal of the positive value `m * 2 ^ e`. -/
def ofBinary (tie : Tie) (m : Nat) (e : Int) (narrow : Bool) : DecimalValue :=
  -- a grid so coarse that the value lies below its first point
  let coarsest : Int := ((m.log2 : Int) + 1 + e) * 30103 / 100000 + 2
  let hit := (List.range 24).findSome? fun (i : Nat) =>
    (onGrid tie m e narrow (coarsest - i)).map fun c => (⟨c, coarsest - i⟩ : DecimalValue)
  strip 24 (hit.getD default)

end Shortest

/-! ## Setting out the digits -/

/-- How a decimal is written. -/
structure DecimalLayout where
  /-- Which of two equally short and near decimals is written. -/
  tie : Shortest.Tie
  /-- Numbers of this many digits before the point, or fewer, have no exponent; `none`: no limit. -/
  mostBefore : Option Int
  /-- Numbers with at most this many zeros behind the point have no exponent; `none`: no limit. -/
  mostZeros : Option Int
  /-- Whole numbers keep a point and a zero. -/
  wholePoint : Bool

namespace DecimalLayout

def zeros (n : Int) : List Char := List.replicate n.toNat '0'

/-- An exponent, which always has a sign. -/
def scale (e : Int) : List Char :=
  'e' :: (if e < 0 then '-' else '+') :: Decimal.digits e.natAbs

/-- The digits of `d`, with the point or exponent that the layout asks for. -/
def write (l : DecimalLayout) (d : DecimalValue) : List Char :=
  let ds := Decimal.digits d.coefficient
  let point : Int := ds.length + d.exponent
  let tail := if l.wholePoint then ['.', '0'] else []
  if 0 ≤ d.exponent ∧ l.mostBefore.all (point ≤ ·) then
    ds ++ zeros d.exponent ++ tail
  else if 0 < point ∧ l.mostBefore.all (point ≤ ·) then
    ds.take point.toNat ++ '.' :: ds.drop point.toNat
  else if point ≤ 0 ∧ l.mostZeros.all (-point ≤ ·) then
    '0' :: '.' :: (zeros (-point) ++ ds)
  else
    match ds with
    | [] => scale (point - 1)
    | [d] => d :: scale (point - 1)
    | d :: ds => d :: '.' :: (ds ++ scale (point - 1))

end DecimalLayout

end Signalbox
