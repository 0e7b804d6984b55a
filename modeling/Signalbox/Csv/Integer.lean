import Signalbox.Numeral.Decimal
import Signalbox.Numeral.Rounding

/-!
# Integers in tables

An integer field holds decimal digits, or hexadecimal ones after `0x`.  A plus sign may precede the
digits, and a minus sign where negative numbers are allowed.  The first fault from the left is
reported: a character that is no digit, or a digit that takes the number out of its range.
-/

set_option autoImplicit false

namespace Signalbox.Csv

/-- Why a field is not an integer of its range. -/
inductive IntegerFault where
  | empty
  | notADigit
  | tooLarge
  | tooSmall
deriving DecidableEq, Inhabited

def IntegerFault.message : IntegerFault → String
  | empty => "cannot parse integer from empty string"
  | notADigit => "invalid digit found in string"
  | tooLarge => "number too large to fit in target type"
  | tooSmall => "number too small to fit in target type"

/-- A range of integers. -/
structure IntegerRange where
  low : Int
  high : Int

def coordinateRange : IntegerRange := ⟨-negatives32, negatives32 - 1⟩

def platformRange : IntegerRange := ⟨0, size16 - 1⟩

/-- The value of a digit to a base of at most sixteen. -/
def digit? (base : Nat) (c : Char) : Option Nat :=
  let v :=
    if '0' ≤ c ∧ c ≤ '9' then c.toNat - 48
    else if 'a' ≤ c ∧ c ≤ 'f' then c.toNat - 87
    else if 'A' ≤ c ∧ c ≤ 'F' then c.toNat - 55
    else 16
  if v < base then some v else none

/-- Append digits to a number, or subtract them if it is negative. -/
def readDigits (range : IntegerRange) (base : Nat) (negative : Bool) (v : Int) :
    List Char → Except IntegerFault Int
  | [] => .ok v
  | c :: cs =>
    match digit? base c with
    | none => .error .notADigit
    | some d =>
      let v := if negative then v * base - d else v * base + d
      if range.high < v then .error .tooLarge
      else if v < range.low then .error .tooSmall
      else readDigits range base negative v cs

/-- Digits with a sign before them. -/
def readSigned (range : IntegerRange) (base : Nat) (cs : List Char) : Except IntegerFault Int :=
  match cs with
  | [] => .error .empty
  | ['+'] => .error .notADigit
  | ['-'] => .error .notADigit
  | '+' :: cs => readDigits range base false 0 cs
  | '-' :: cs =>
    if range.low < 0 then readDigits range base true 0 cs else .error .notADigit
  | cs => readDigits range base false 0 cs

/-- The integer in a field. -/
def readInteger (range : IntegerRange) (cs : List Char) : Except IntegerFault Int :=
  match cs with
  | '0' :: 'x' :: cs => readSigned range 16 cs
  | cs => readSigned range 10 cs

end Signalbox.Csv
