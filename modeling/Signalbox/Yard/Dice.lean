import Signalbox.Numeral.Rounding

/-!
# Dice

A sequence of 64-bit words that looks random and depends on a seed only, and fair throws made from
it.  Four words of state are mixed by additions, shifts and rotations; the seed is spread over them
by a multiplicative generator.
-/

set_option autoImplicit false

namespace Signalbox.Yard

/-- The state of the sequence. -/
structure Dice where
  a : UInt64
  b : UInt64
  c : UInt64
  d : UInt64

namespace Dice

/-- A word with its bits moved `k` places round to the left. -/
def rotate (x k : UInt64) : UInt64 := (x <<< k) ||| (x >>> (64 - k))

/-! ## Seeding -/

/-- The next state of the generator that spreads the seed. -/
def spread (s : UInt64) : UInt64 := s * 6364136223846793005 + 11634580027462260723

/-- The 32 bits that a state of that generator gives: its upper half, rotated to the right by its
five highest bits. -/
def half (s : UInt64) : UInt32 :=
  let x := (((s >>> 18) ^^^ s) >>> 27).toUInt32
  let k := (s >>> 59).toUInt32
  (x >>> k) ||| (x <<< (32 - k))

/-- Two halves in a row, the lower one first, and the state after them. -/
def word (s : UInt64) : UInt64 × UInt64 :=
  let s := spread s
  let t := spread s
  ((half s).toUInt64 ||| ((half t).toUInt64 <<< 32), t)

/-- The dice for a seed. -/
def ofSeed (seed : UInt64) : Dice :=
  let (a, s) := word seed
  let (b, s) := word s
  let (c, s) := word s
  let (d, _) := word s
  ⟨a, b, c, d⟩

/-! ## Throws -/

/-- The next word of the sequence. -/
def next (s : Dice) : UInt64 × Dice :=
  let c := s.c ^^^ s.a
  let d := s.d ^^^ s.b
  (rotate (s.a + s.d) 23 + s.a, ⟨s.a ^^^ d, s.b ^^^ c, c ^^^ (s.b <<< 17), rotate d 45⟩)

/-- A number below `n`, from the upper word of the product of `n` and a random word.  Words whose
product has too large a lower word would make some numbers likelier than others and are thrown
again, at most `tries` times. -/
def throwWithin (n : Nat) (s : Dice) : Nat → Nat × Dice
  | 0 => (0, s)
  | tries + 1 =>
    let (v, s) := s.next
    let product := n * v.toNat
    if product % size64 < n * twoTo (63 - n.log2) then (product / size64, s)
    else s.throwWithin n tries

/-- A number below `n`.  That 256 throws in a row are void hardly ever happens. -/
def throw (n : Nat) (s : Dice) : Nat × Dice := s.throwWithin n 256

end Dice

end Signalbox.Yard
