import Signalbox.Numeral.Binary
import Signalbox.Numeral.Shortest

/-!
# Single-precision values

A `Binary32` is a 32-bit pattern: a sign, eight bits of exponent and twenty-three of mantissa.
Everything the library needs of such values, rounding, comparison with zero and their decimal text,
is computed exactly on the pattern.
-/

set_option autoImplicit false

namespace Signalbox

/-- A single-precision floating-point value, as its bit pattern. -/
structure Binary32 where
  bits : UInt32
deriving DecidableEq, Inhabited

namespace Binary32

/-! ## Parts of the pattern -/

/-- How many values the twenty-three bits of a mantissa have. -/
def fractionSize : Nat := 8388608

def exponentField (v : Binary32) : Nat := v.bits.toNat / fractionSize % size8

def mantissaField (v : Binary32) : Nat := v.bits.toNat % fractionSize

def isNegative (v : Binary32) : Bool := decide (negatives32 ≤ v.bits.toNat)

/-- Neither infinite nor undefined. -/
def isFinite (v : Binary32) : Bool := v.exponentField ≠ 255

def isNaN (v : Binary32) : Bool := v.exponentField = 255 && v.mantissaField ≠ 0

def isPositive (v : Binary32) : Bool := !v.isNegative && !v.isNaN && v.bits ≠ 0

/-- The value without its sign; what is not a number has no magnitude of its own and reads as
infinite. -/
def magnitude (v : Binary32) : Magnitude :=
  if v.exponentField = 255 then .infinite
  else if v.exponentField = 0 then .finite v.mantissaField (-149)
  else .finite (v.mantissaField + fractionSize) (v.exponentField - 150)

/-- The pattern of a single-precision magnitude with a sign. -/
def ofMagnitude (negative : Bool) (m : Magnitude) : Binary32 :=
  let sign := if negative then negatives32 else 0
  let body := match m with
    | .infinite => 255 * fractionSize
    | .finite m e =>
      if m < fractionSize then m else (e + 150).toNat * fractionSize + (m - fractionSize)
  ⟨UInt32.ofNat (sign + body)⟩

/-- The value nearest to `num / den`. -/
def nearest (negative : Bool) (num den : Nat) : Binary32 :=
  ofMagnitude negative (BinaryFormat.single.nearest num den)

/-- The value nearest to a magnitude of another format. -/
def ofWider (negative : Bool) (m : Magnitude) : Binary32 :=
  ofMagnitude negative (m.convert .single)

def infinity (negative : Bool) : Binary32 := ofMagnitude negative .infinite

/-- The quiet pattern that is not a number. -/
def nan : Binary32 := ⟨0x7fc00000⟩

/-! ## Decimal text -/

/-- The shortest decimal of the value without its sign, laid out as asked. -/
def decimal (l : DecimalLayout) (v : Binary32) : List Char :=
  match v.magnitude with
  | .infinite => []
  | .finite 0 _ => l.write ⟨0, 0⟩
  | .finite m e =>
    let narrow := v.mantissaField = 0 ∧ 1 < v.exponentField
    l.write (Shortest.ofBinary l.tie m e narrow)

/-- The text of any value: shortest decimal, and words for what has no digits. -/
def write (l : DecimalLayout) (v : Binary32) : String :=
  if v.isNaN then "NaN"
  else
    let body := if v.isFinite then v.decimal l else ['i', 'n', 'f']
    String.ofList (if v.isNegative then '-' :: body else body)

/-- Plain text never has an exponent, and whole numbers have no point. -/
def plainLayout : DecimalLayout := ⟨.up, none, none, false⟩

/-- The value as it stands in messages and tables. -/
def text (v : Binary32) : String := v.write plainLayout

end Binary32

end Signalbox
