import Signalbox.Cell

/-!
# Bytes

Texts and words as lists of bytes: texts in UTF-8, words with the least significant byte first.

* `ofBytes_toBytes` : a word of `w` bytes is read back from its bytes.
-/

set_option autoImplicit false

namespace Signalbox.Digest

/-- The UTF-8 bytes of a text. -/
def textBytes (s : String) : List UInt8 := s.toByteArray.data.toList

/-- The low `w` bytes of `n`, least significant first. -/
def toBytes : Nat → Nat → List UInt8
  | 0, _ => []
  | w + 1, n => UInt8.ofNat n :: toBytes w (n / 256)

/-- The number with the given bytes, least significant first. -/
def ofBytes : List UInt8 → Nat
  | [] => 0
  | b :: bs => b.toNat + 256 * ofBytes bs

@[simp] theorem length_toBytes (w n : Nat) : (toBytes w n).length = w := by
  induction w generalizing n with
  | zero => rfl
  | succ w ih => simp [toBytes, ih]

theorem ofBytes_toBytes (w n : Nat) : ofBytes (toBytes w n) = n % Nat.pow 256 w := by
  induction w generalizing n with
  | zero => simp [toBytes, ofBytes, Nat.mod_one]
  | succ w ih =>
    simp only [toBytes, ofBytes, ih, UInt8.toNat_ofNat']
    have h : Nat.pow 256 (w + 1) = 256 * Nat.pow 256 w := Nat.mul_comm _ _
    rw [h, Nat.mod_mul]

/-- The four bytes of a coordinate. -/
def coordinateBytes (i : Int32) : List UInt8 := toBytes 4 i.toUInt32.toNat

/-- The bytes of a cell, coordinate by coordinate. -/
def cellBytes (c : Cell) : List UInt8 :=
  coordinateBytes c.x ++ coordinateBytes c.y ++ coordinateBytes c.z

end Signalbox.Digest
