import Signalbox.Csv.Integer

/-!
# Integers are read back from their numerals

An integer within its range is read back from the numeral that is written for it.  While the digits
are taken in, the number only grows away from zero, so if it ends within the range it never leaves
it on the way:

* `readDigits_eq`       : digits are read as their value, with the sign before them;
* `readInteger_signed`  : the numeral of an integer is read back.
-/

set_option autoImplicit false

namespace Signalbox.Csv

open Decimal (digitValue digits)

variable {range : IntegerRange} {cs : List Char}

/-! ## Digits -/

theorem digit?_of_isDigit {c : Char} (h : c.isDigit = true) : digit? 10 c = some (digitValue c) := by
  have between : '0' ≤ c ∧ c ≤ '9' := Char.isDigit_iff_toNat.1 h
  have small : c.toNat - 48 < 10 := by
    have : c.toNat ≤ 57 := between.2
    omega
  simp [digit?, between, small, digitValue]

/-- The value of more digits, behind those that make up `v`. -/
def grown (v : Nat) (cs : List Char) : Nat := cs.foldl (fun v c => 10 * v + digitValue c) v

theorem le_grown (v : Nat) (cs : List Char) : v ≤ grown v cs := by
  induction cs generalizing v with
  | nil => exact Nat.le_refl v
  | cons c cs ih =>
    have := ih (10 * v + digitValue c)
    show v ≤ grown (10 * v + digitValue c) cs
    omega

/-- The number with a sign. -/
def withSign (negative : Bool) (v : Nat) : Int := if negative then -v else v

/-- **Digits are read as their value**, if the range has it and zero. -/
theorem readDigits_eq (negative : Bool) (zero : range.low ≤ 0 ∧ 0 ≤ range.high) {v : Nat}
    (all : ∀ c ∈ cs, c.isDigit = true)
    (low : range.low ≤ withSign negative (grown v cs))
    (high : withSign negative (grown v cs) ≤ range.high) :
    readDigits range 10 negative (withSign negative v) cs =
      .ok (withSign negative (grown v cs)) := by
  induction cs generalizing v with
  | nil => rfl
  | cons c cs ih =>
    have next : (if negative then withSign negative v * (10 : Nat) - digitValue c
        else withSign negative v * (10 : Nat) + digitValue c) =
        withSign negative (10 * v + digitValue c) := by
      cases negative <;> simp [withSign] <;> omega
    -- the number with one digit more lies between zero and the whole number
    have small := le_grown (10 * v + digitValue c) cs
    have inside : range.low ≤ withSign negative (10 * v + digitValue c) ∧
        withSign negative (10 * v + digitValue c) ≤ range.high := by
      change range.low ≤ withSign negative (grown (10 * v + digitValue c) cs) at low
      change withSign negative (grown (10 * v + digitValue c) cs) ≤ range.high at high
      cases negative <;> simp only [withSign, if_true, Bool.false_eq_true, if_false] at * <;> omega
    rw [readDigits, digit?_of_isDigit (all c (by simp))]
    simp only [next, if_neg (Int.not_lt.2 inside.1), if_neg (Int.not_lt.2 inside.2)]
    exact ih (fun c' h => all c' (by simp [h])) low high

/-! ## Numerals -/

/-- A numeral without sign is read digit by digit. -/
theorem readInteger_digits (n : Nat) :
    readInteger range (digits n) = readDigits range 10 false 0 (digits n) := by
  have all : ∀ c ∈ digits n, c.isDigit = true := fun c h => Decimal.isDigit_of_mem_digits h
  unfold readInteger
  split
  · rename_i cs eq
    exact absurd (all 'x' (by simp [eq])) (by decide)
  · unfold readSigned
    split
    · exact absurd ‹_› (Decimal.digits_ne_nil n)
    · exact absurd (all '+' (by simp [*])) (by decide)
    · exact absurd (all '-' (by simp [*])) (by decide)
    · exact absurd (all '+' (by simp [*])) (by decide)
    · exact absurd (all '-' (by simp [*])) (by decide)
    · rfl

theorem readInteger_minus (negative : range.low < 0) (n : Nat) :
    readInteger range ('-' :: digits n) = readDigits range 10 true 0 (digits n) := by
  cases h : digits n with
  | nil => exact absurd h (Decimal.digits_ne_nil n)
  | cons c cs => simp [readInteger, readSigned, negative]

/-- **An integer of a range that has zero is read back from its numeral.** -/
theorem readInteger_signed (zero : range.low ≤ 0 ∧ 0 ≤ range.high) {i : Int}
    (low : range.low ≤ i) (high : i ≤ range.high) :
    readInteger range (Decimal.signed i) = .ok i := by
  have value (n : Nat) : grown 0 (digits n) = n := Decimal.value_digits n
  have all (n : Nat) : ∀ c ∈ digits n, c.isDigit = true :=
    fun c h => Decimal.isDigit_of_mem_digits h
  cases i with
  | ofNat n =>
    have read := readDigits_eq (v := 0) false zero (all n)
      (by rw [value]; exact low) (by rw [value]; exact high)
    rw [value] at read
    exact (readInteger_digits n).trans read
  | negSucc n =>
    have sign : withSign true (n + 1) = Int.negSucc n := rfl
    have read := readDigits_eq (v := 0) true zero (all (n + 1))
      (by rw [value, sign]; exact low) (by rw [value, sign]; exact high)
    rw [value, sign] at read
    exact (readInteger_minus (by omega) (n + 1)).trans read

end Signalbox.Csv
