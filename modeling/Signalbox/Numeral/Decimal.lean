/-!
# Decimal numerals

Whole numbers in decimal, without leading zeros, as lists of characters.  A span of digits is read
back by its value:

* `value_digits`   : the value of the digits of `n` is `n`;
* `isDigit_of_mem_digits`, `digits_ne_nil` : a numeral is a non-empty run of digits.
-/

set_option autoImplicit false

namespace Signalbox.Decimal

/-! ## Digits -/

/-- The character of a digit below ten. -/
def digitChar (d : Nat) : Char := Char.ofNat (48 + d % 10)

def digitValue (c : Char) : Nat := c.toNat - 48

theorem digitValue_digitChar {d : Nat} (h : d < 10) : digitValue (digitChar d) = d := by
  have h' : ∀ d, d < 10 → digitValue (digitChar d) = d := by decide
  exact h' d h

theorem isDigit_digitChar (d : Nat) : (digitChar d).isDigit = true := by
  have h' : ∀ d, d < 10 → (digitChar d).isDigit = true := by decide
  have := h' (d % 10) (Nat.mod_lt _ (by decide))
  simpa [digitChar] using this

/-- The digits of `n`, most significant first. -/
def digits (n : Nat) : List Char :=
  if n < 10 then [digitChar n] else digits (n / 10) ++ [digitChar n]
termination_by n

/-- The value of a run of digits. -/
def value (cs : List Char) : Nat := cs.foldl (fun v c => 10 * v + digitValue c) 0

theorem value_append_singleton (cs : List Char) (c : Char) :
    value (cs ++ [c]) = 10 * value cs + digitValue c := by
  simp [value, List.foldl_append]

theorem digitValue_digitChar_mod (n : Nat) : digitValue (digitChar n) = n % 10 := by
  have h : digitChar n = digitChar (n % 10) := by simp [digitChar]
  rw [h, digitValue_digitChar (Nat.mod_lt _ (by decide))]

theorem value_digits (n : Nat) : value (digits n) = n := by
  rw [digits]
  split
  · simp [value, digitValue_digitChar (by assumption)]
  · rw [value_append_singleton, value_digits (n / 10), digitValue_digitChar_mod]
    omega
termination_by n

theorem digits_ne_nil (n : Nat) : digits n ≠ [] := by
  rw [digits]; split <;> simp

theorem isDigit_of_mem_digits {n : Nat} {c : Char} (h : c ∈ digits n) : c.isDigit = true := by
  rw [digits] at h
  split at h
  · simp only [List.mem_singleton] at h
    rw [h]; exact isDigit_digitChar n
  · rcases List.mem_append.1 h with h | h
    · exact isDigit_of_mem_digits h
    · simp only [List.mem_singleton] at h
      rw [h]; exact isDigit_digitChar n
termination_by n

theorem digits_injective {m n : Nat} (h : digits m = digits n) : m = n := by
  rw [← value_digits m, h, value_digits]

/-! ## Numerals as text -/

/-- An integer in decimal, with a minus sign when it is negative. -/
def signed (i : Int) : List Char :=
  match i with
  | .ofNat n => digits n
  | .negSucc n => '-' :: digits (n + 1)

def ofNat (n : Nat) : String := String.ofList (digits n)

/-- The decimal text of an integer. -/
def ofInt (i : Int) : String := String.ofList (signed i)

/-- The natural number written with decimal digits only, if the text is a numeral. -/
def toNat? (cs : List Char) : Option Nat :=
  if cs ≠ [] ∧ cs.all Char.isDigit then some (value cs) else none

end Signalbox.Decimal
