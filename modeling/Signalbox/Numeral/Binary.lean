import Signalbox.Numeral.Rounding

/-!
# Binary floating-point magnitudes

A finite magnitude is `mantissa * 2 ^ exponent`.  A `BinaryFormat` says how many digits a mantissa
has and how far the exponent goes; `BinaryFormat.nearest` is the format's magnitude nearest to a
quotient of natural numbers, ties to even, computed exactly.
-/

set_option autoImplicit false

namespace Signalbox

/-- A non-negative floating-point value. -/
inductive Magnitude where
  | finite (mantissa : Nat) (exponent : Int)
  | infinite
deriving DecidableEq, Inhabited

/-- The widths of a binary floating-point format. -/
structure BinaryFormat where
  /-- Significant digits of a mantissa. -/
  precision : Nat
  /-- The exponent of the least magnitude. -/
  minExponent : Int
  /-- The largest exponent of a mantissa of full width. -/
  maxExponent : Int

namespace BinaryFormat

def single : BinaryFormat := ⟨24, -149, 104⟩

def double : BinaryFormat := ⟨53, -1074, 971⟩

/-- The exponent of the leading binary digit of `num / den`. -/
def leading (num den : Nat) : Int :=
  let e : Int := (num.log2 : Int) - den.log2
  let reaches := if 0 ≤ e then den * twoTo e.toNat ≤ num else den ≤ num * twoTo (-e).toNat
  if reaches then e else e - 1

/-- The magnitude nearest to `num / den`. -/
def nearest (f : BinaryFormat) (num den : Nat) : Magnitude :=
  if num = 0 then .finite 0 f.minExponent else
    let e := max (leading num den - (f.precision - 1)) f.minExponent
    let m :=
      if 0 ≤ e then Rounding.roundDiv num (den * twoTo e.toNat)
      else Rounding.roundDiv (num * twoTo (-e).toNat) den
    let (m, e) := if m = twoTo f.precision then (twoTo (f.precision - 1), e + 1) else (m, e)
    if f.maxExponent < e then .infinite else .finite m e

end BinaryFormat

namespace Magnitude

/-- Numerator and denominator of a finite magnitude. -/
def quotient (m : Nat) (e : Int) : Nat × Nat :=
  if 0 ≤ e then (m * twoTo e.toNat, 1) else (m, twoTo (-e).toNat)

/-- The magnitude of another format nearest to this one. -/
def convert (f : BinaryFormat) : Magnitude → Magnitude
  | .infinite => .infinite
  | .finite m e => let (n, d) := quotient m e; f.nearest n d

/-- The rounded product; a factor that is not finite makes it infinite. -/
def mul (f : BinaryFormat) : Magnitude → Magnitude → Magnitude
  | .finite m e, .finite m' e' =>
    let (n, d) := quotient (m * m') (e + e')
    f.nearest n d
  | _, _ => .infinite

/-- The rounded quotient by a positive divisor; an infinite divisor gives zero. -/
def div (f : BinaryFormat) : Magnitude → Magnitude → Magnitude
  | .finite m e, .finite m' e' =>
    let (n, d) := quotient m (e - e')
    f.nearest n (d * m')
  | .finite _ _, .infinite => .finite 0 f.minExponent
  | .infinite, _ => .infinite

/-- The least whole number that is not below the magnitude. -/
def ceil? : Magnitude → Option Nat
  | .finite m e => let (n, d) := quotient m e; some ((n + d - 1) / d)
  | .infinite => none

end Magnitude

end Signalbox
