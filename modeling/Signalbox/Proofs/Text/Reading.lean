import Signalbox.Digest.Bytes
import Signalbox.Numeral.Decimal

/-!
# Reading what was written

What a text or a list of bytes was put together from can be told again if its parts cannot be
mistaken for one another: what stands before a separator, if it has no separator in it; a numeral; a
text from its bytes in UTF-8; a coordinate from its four bytes.

* `eq_of_append_cons`            : a part ends where the first separator stands;
* `Decimal.signed_injective`     : an integer is read back from its numeral;
* `Digest.not_mem_textBytes`     : a separator below 128 is no part of another character;
* `Digest.textBytes_injective`, `Digest.cellBytes_injective` : bytes are read back.
-/

set_option autoImplicit false

namespace Signalbox

/-- What stands before the first separator is the same in equal lists, and so is the rest. -/
theorem eq_of_append_cons {α : Type} {a : α} {x y x' y' : List α} (hx : a ∉ x) (hx' : a ∉ x')
    (h : x ++ a :: y = x' ++ a :: y') : x = x' ∧ y = y' := by
  induction x generalizing x' with
  | nil =>
    cases x' with
    | nil => exact ⟨rfl, (List.cons.inj h).2⟩
    | cons b x' => exact absurd (List.cons.inj h).1 (List.ne_of_not_mem_cons hx')
  | cons b x ih =>
    cases x' with
    | nil => exact absurd (List.cons.inj h).1.symm (List.ne_of_not_mem_cons hx)
    | cons b' x' =>
      obtain ⟨rfl, rest⟩ := List.cons.inj h
      obtain ⟨rfl, rfl⟩ := ih (List.not_mem_of_not_mem_cons hx) (List.not_mem_of_not_mem_cons hx') rest
      exact ⟨rfl, rfl⟩

/-! ## Numerals -/

namespace Decimal

variable {i j : Int}

theorem comma_not_mem_signed (i : Int) : ',' ∉ signed i := by
  have digit (n : Nat) : ',' ∉ digits n := fun h => absurd (isDigit_of_mem_digits h) (by decide)
  cases i with
  | ofNat n => exact digit n
  | negSucc n => exact List.not_mem_cons_of_ne_of_not_mem (by decide) (digit _)

/-- An integer is read back from its numeral, since no digit is a minus sign. -/
theorem signed_injective (h : signed i = signed j) : i = j := by
  have no_minus (m n : Nat) : digits m ≠ '-' :: digits n := fun h =>
    absurd (isDigit_of_mem_digits (h ▸ List.mem_cons_self ..)) (by decide)
  cases i with
  | ofNat m =>
    cases j with
    | ofNat n => rw [digits_injective h]
    | negSucc n => exact absurd h (no_minus m (n + 1))
  | negSucc m =>
    cases j with
    | ofNat n => exact absurd h.symm (no_minus n (m + 1))
    | negSucc n => rw [Nat.succ.inj (digits_injective (List.cons.inj h).2)]

end Decimal

/-! ## Bytes -/

namespace Digest

variable {s t : String} {i j : Int32} {c d : Cell}

theorem textBytes_eq (s : String) : textBytes s = s.toList.flatMap String.utf8EncodeChar := by
  rw [textBytes, ← String.utf8Encode_toList, List.utf8Encode, List.data_toByteArray]

theorem textBytes_injective (h : textBytes s = textBytes t) : s = t :=
  String.toByteArray_inj.1 (ByteArray.ext (Array.toList_inj.1 h))

/-- A character is its own only byte, or all its bytes are 128 and more. -/
theorem toNat_of_mem_utf8EncodeChar {a : Char} :
    ∀ b ∈ String.utf8EncodeChar a, b.toNat = a.toNat ∨ 128 ≤ b.toNat := by
  simp only [String.utf8EncodeChar, Char.toNat_val]
  -- one byte for the character itself, or up to four bytes with the highest bit set
  repeat' split
  all_goals
    simp only [List.forall_mem_cons, UInt8.toNat_ofNat', List.not_mem_nil, false_implies,
      implies_true, and_true]
    omega

/-- A character below 128 has its byte in the bytes of a text only where the text has the
character. -/
theorem not_mem_textBytes (a : Char) {b : UInt8} (low : b.toNat < 128) (same : a.toNat = b.toNat)
    (h : a ∉ s.toList) : b ∉ textBytes s := by
  rw [textBytes_eq, List.mem_flatMap]
  rintro ⟨a', mem, byte⟩
  rcases toNat_of_mem_utf8EncodeChar b byte with eq | high
  · rw [Char.toNat_inj.1 (same.trans eq)] at h
    exact h mem
  · exact absurd high (Nat.not_le_of_lt low)

theorem coordinateBytes_injective (h : coordinateBytes i = coordinateBytes j) : i = j := by
  have word := congrArg ofBytes h
  rw [coordinateBytes, coordinateBytes, ofBytes_toBytes, ofBytes_toBytes,
    Nat.mod_eq_of_lt i.toUInt32.toNat_lt, Nat.mod_eq_of_lt j.toUInt32.toNat_lt] at word
  rw [← i.toInt32_toUInt32, ← j.toInt32_toUInt32, UInt32.toNat_inj.1 word]

theorem length_cellBytes (c : Cell) : (cellBytes c).length = 12 := by
  simp [cellBytes, coordinateBytes]

theorem cellBytes_injective (h : cellBytes c = cellBytes d) : c = d := by
  have four (i j : Int32) : (coordinateBytes i).length = (coordinateBytes j).length := by
    simp [coordinateBytes]
  obtain ⟨xy, z⟩ := List.append_inj' h (four _ _)
  obtain ⟨x, y⟩ := List.append_inj xy (four _ _)
  cases c; cases d
  simp only [Cell.mk.injEq]
  exact ⟨coordinateBytes_injective x, coordinateBytes_injective y, coordinateBytes_injective z⟩

end Digest

end Signalbox
