import Signalbox.Json.Value
import Signalbox.Numeral.Binary32
import Signalbox.Time

/-!
# The values of JSON numbers

A numeral without point and exponent is an integer.  Any numeral has a double-precision value,
found with one rounding per arithmetic operation: the leading digits that fit a 64-bit word are
taken as a whole number, which is multiplied or divided by a power of ten of double precision.  A
value beyond the range is refused.

* `Numeral.integer?`  : the integer that a numeral denotes, if it is written as one;
* `Numeral.binary32?` : the single-precision value of a numeral.
-/

set_option autoImplicit false

namespace Signalbox.Json.Numeral

/-! ## Integers -/

/-- The integer of a numeral without point and exponent.  Minus zero is none. -/
def integer? (n : Numeral) : Option Int :=
  if n.fraction.isSome || n.exponent.isSome then none
  else
    let v := Decimal.value n.whole
    if n.negative then (if v = 0 then none else some (-v)) else some v

/-- The natural number of a numeral, if it is below the bound. -/
def natBelow? (bound : Nat) (n : Numeral) : Option Nat :=
  match n.integer? with
  | some (.ofNat v) => if v < bound then some v else none
  | _ => none

/-! ## Double precision -/

/-- The digits that fit a 64-bit word, added to what was read before, and how many they are. -/
def absorb (significand : Nat) (taken : Nat) : List Char → Nat × Nat
  | [] => (significand, taken)
  | d :: ds =>
    let v := significand * 10 + Decimal.digitValue d
    if maxWord < v then (significand, taken) else absorb v (taken + 1) ds

/-- A power of ten in double precision. -/
def powerOfTen (n : Nat) : Magnitude := BinaryFormat.double.nearest (tenTo n) 1

/-- The largest power of ten in double precision. -/
def topPower : Nat := 308

/-- Scale a value by a power of ten; `none` if it leaves the range. -/
def scale (m : Magnitude) (e : Int) : Option Magnitude :=
  if e.natAbs ≤ topPower then
    if 0 ≤ e then
      match m.mul .double (powerOfTen e.natAbs) with
      | .infinite => none
      | v => some v
    else some (m.div .double (powerOfTen e.natAbs))
  else
    match m with
    | .finite 0 e' => some (.finite 0 e')
    | m =>
      if 0 ≤ e then none else scale (m.div .double (powerOfTen topPower)) (e + topPower)
termination_by e.natAbs
decreasing_by
  simp only [topPower] at *
  omega

/-- The largest exponent that is looked at digit by digit. -/
def maxExponent : Nat := negatives32 - 1

/-- The double-precision magnitude of a numeral. -/
def double? (n : Numeral) : Option Magnitude :=
  let (whole, taken) := absorb 0 0 n.whole
  let (significand, places) := absorb whole 0 (n.fraction.getD [])
  let base : Int := (n.whole.length - taken : Nat) - (places : Int)
  match n.exponent with
  | none => scale (BinaryFormat.double.nearest significand 1) base
  | some (negative, ds) =>
    let e := Decimal.value ds
    if maxExponent < e then
      if significand ≠ 0 ∧ negative = false then none else some (.finite 0 0)
    else
      let e := if negative then base - e else base + e
      scale (BinaryFormat.double.nearest significand 1) e

/-! ## Single precision -/

/-- The single-precision value of a numeral.  Integers of 64 bits are rounded once, all other
numerals go through double precision. -/
def binary32? (n : Numeral) : Option Binary32 :=
  let v := Decimal.value n.whole
  let whole := n.fraction.isNone && n.exponent.isNone
  if whole && (if n.negative then 0 < v && v ≤ negatives64 else v ≤ maxWord) then
    some (.nearest n.negative v 1)
  else n.double?.map fun m => .ofWider n.negative m

/-- The value of a numeral without its sign, as a quotient.  An exponent that takes any digits out
of the range of double precision is cut to one that does so too. -/
def quotient (n : Numeral) : Nat × Nat :=
  let digits := n.whole ++ n.fraction.getD []
  let places := (n.fraction.getD []).length
  let cut (ds : List Char) : Nat := min (Decimal.value ds) (digits.length + 400)
  match n.exponent with
  | some (true, ds) => (Decimal.value digits, tenTo (places + cut ds))
  | some (false, ds) => (Decimal.value digits * tenTo (cut ds), tenTo places)
  | none => (Decimal.value digits, tenTo places)

/-- The single-precision value nearest to the double-precision value nearest to a numeral. -/
def nearest32 (n : Numeral) : Binary32 :=
  let (num, den) := n.quotient
  .ofWider n.negative (BinaryFormat.double.nearest num den)

/-- The numeral that a layout without words gives. -/
def ofText (cs : List Char) : Numeral :=
  let negative := cs.head? = some '-'
  let cs := if negative then cs.drop 1 else cs
  let whole := cs.takeWhile Char.isDigit
  let cs := cs.drop whole.length
  let (fraction, cs) :=
    match cs with
    | '.' :: cs => (some (cs.takeWhile Char.isDigit), cs.dropWhile Char.isDigit)
    | cs => (none, cs)
  let exponent :=
    match cs with
    | 'e' :: '-' :: ds => some (true, ds)
    | 'e' :: '+' :: ds => some (false, ds)
    | _ => none
  { negative, whole, fraction, exponent }

end Signalbox.Json.Numeral
