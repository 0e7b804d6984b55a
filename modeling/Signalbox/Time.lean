import Signalbox.Numeral.Decimal
import Signalbox.Numeral.Rounding

/-!
# Time

A `Timestamp` is a number of milliseconds in a 64-bit word.  Sums stop at the last representable
instant instead of wrapping, and differences stop at zero:

* `Timestamp.toNat_plus` : `t.plus d` is the smaller of `t + d` and the largest word.
-/

set_option autoImplicit false

namespace Signalbox

/-- An instant, in milliseconds since an epoch of the caller's choice. -/
structure Timestamp where
  ms : UInt64
deriving DecidableEq, Inhabited

namespace Timestamp

def toNat (t : Timestamp) : Nat := t.ms.toNat

theorem toNat_le (t : Timestamp) : t.toNat ≤ maxWord := by
  have := t.ms.toNat_lt
  simp only [toNat, maxWord, size64]; omega

theorem toNat_inj {a b : Timestamp} : a.toNat = b.toNat ↔ a = b := by
  cases a; cases b
  simp [toNat, UInt64.toNat_inj]

/-- The instant `n` milliseconds after the epoch, or the last one if that is too late. -/
def ofNat (n : Nat) : Timestamp := ⟨UInt64.ofNat (min n maxWord)⟩

theorem toNat_ofNat (n : Nat) : (ofNat n).toNat = min n maxWord := by
  simp only [ofNat, toNat, UInt64.toNat_ofNat', maxWord, size64]
  omega

/-! ## Order -/

instance : LE Timestamp := ⟨fun a b => a.ms ≤ b.ms⟩
instance : LT Timestamp := ⟨fun a b => a.ms < b.ms⟩
instance (a b : Timestamp) : Decidable (a ≤ b) := inferInstanceAs (Decidable (a.ms ≤ b.ms))
instance (a b : Timestamp) : Decidable (a < b) := inferInstanceAs (Decidable (a.ms < b.ms))
instance : Max Timestamp := ⟨fun a b => if a ≤ b then b else a⟩
instance : Ord Timestamp := ⟨fun a b => compare a.ms b.ms⟩

theorem le_iff {a b : Timestamp} : a ≤ b ↔ a.toNat ≤ b.toNat := UInt64.le_iff_toNat_le

theorem lt_iff {a b : Timestamp} : a < b ↔ a.toNat < b.toNat := UInt64.lt_iff_toNat_lt

theorem toNat_max (a b : Timestamp) : (max a b).toNat = max a.toNat b.toNat := by
  show (if a ≤ b then b else a).toNat = _
  split
  · rename_i h; rw [le_iff] at h; omega
  · rename_i h; rw [le_iff] at h; omega

theorem le_refl (t : Timestamp) : t ≤ t := le_iff.2 (Nat.le_refl _)

theorem le_trans {t u v : Timestamp} (h : t ≤ u) (k : u ≤ v) : t ≤ v :=
  le_iff.2 (Nat.le_trans (le_iff.1 h) (le_iff.1 k))

theorem max_le_iff {a b t : Timestamp} : max a b ≤ t ↔ a ≤ t ∧ b ≤ t := by
  rw [le_iff, le_iff, le_iff, toNat_max]
  omega

theorem max_eq_right {a b : Timestamp} (h : a ≤ b) : max a b = b := if_pos h

/-! ## Arithmetic -/

/-- The instant `d` milliseconds later. -/
def plus (t : Timestamp) (d : UInt64) : Timestamp := ofNat (t.toNat + d.toNat)

theorem toNat_plus (t : Timestamp) (d : UInt64) :
    (t.plus d).toNat = min (t.toNat + d.toNat) maxWord := toNat_ofNat _

theorem le_plus (t : Timestamp) (d : UInt64) : t ≤ t.plus d := by
  have := t.toNat_le
  rw [le_iff, toNat_plus]
  omega

theorem plus_le_plus {t u : Timestamp} (h : t ≤ u) (d : UInt64) : t.plus d ≤ u.plus d := by
  have := le_iff.1 h
  rw [le_iff, toNat_plus, toNat_plus]
  omega

/-- The instant a number of seconds after the epoch. -/
def ofSeconds (s : UInt64) : Timestamp := ofNat (s.toNat * 1000)

/-- The milliseconds from `earlier` to `t`, none if `earlier` is later. -/
def since (t earlier : Timestamp) : Nat := t.toNat - earlier.toNat

/-- The milliseconds in decimal, with their unit. -/
def text (t : Timestamp) : String := Decimal.ofNat t.toNat ++ "ms"

end Timestamp

end Signalbox
