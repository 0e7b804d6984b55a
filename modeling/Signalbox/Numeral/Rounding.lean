/-!
# Powers, sizes of words, and rounding

Powers of two and ten, the numbers of values that words of some widths have, and the two kinds of
rounding to nearest that the library needs, on natural numbers and without error: a quotient to a
whole number, and a whole number to a given number of significant binary digits.

* `roundBits_of_lt` : a number that has no more digits than allowed stays as it is.
-/

set_option autoImplicit false

namespace Signalbox

def twoTo (k : Nat) : Nat := Nat.pow 2 k

def tenTo (k : Nat) : Nat := Nat.pow 10 k

@[simp] theorem twoTo_zero : twoTo 0 = 1 := rfl

theorem twoTo_pos (k : Nat) : 0 < twoTo k := Nat.pow_pos (by decide)

/-- How many values a word of 8 bits has. -/
def size8 : Nat := 256

/-- How many values a word of 16 bits has. -/
def size16 : Nat := 65536

/-- How many values a word of 32 bits has. -/
def size32 : Nat := 4294967296

/-- How many values a word of 64 bits has. -/
def size64 : Nat := 18446744073709551616

/-- The largest 64-bit word. -/
def maxWord : Nat := size64 - 1

/-- How many values of a 32-bit word are negative if it has a sign. -/
def negatives32 : Nat := 2147483648

/-- How many values of a 64-bit word are negative if it has a sign. -/
def negatives64 : Nat := 9223372036854775808

namespace Rounding

/-- The whole number nearest to `n / d`; a half goes to the even neighbour. -/
def roundDiv (n d : Nat) : Nat :=
  let q := n / d
  let r := n % d
  if 2 * r < d then q else if d < 2 * r then q + 1 else q + q % 2

/-- The nearest number to `n` with at most `p` significant binary digits. -/
def roundBits (p n : Nat) : Nat :=
  let surplus := n.log2 + 1 - p
  roundDiv n (twoTo surplus) * twoTo surplus

theorem roundDiv_one (n : Nat) : roundDiv n 1 = n := by
  simp [roundDiv, Nat.mod_one]

theorem roundBits_of_lt {p n : Nat} (h : n.log2 < p) : roundBits p n = n := by
  have h0 : n.log2 + 1 - p = 0 := by omega
  simp [roundBits, h0, roundDiv_one]

end Rounding

end Signalbox
