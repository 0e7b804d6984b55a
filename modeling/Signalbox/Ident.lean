import Std.Data.ExtTreeMap
import Std.Data.ExtTreeSet

/-!
# Identifiers

Nodes, regions and holders are named by opaque texts.  An `Ident r` is a text together with the
role it plays, so a node name is never taken for a region name.  Identifiers are ordered by code
points, the order on which every tie in the library is broken:

* `Ident.compare_eq_lt` : the order of two identifiers is the order of their texts.
-/

set_option autoImplicit false

namespace Signalbox

/-- What an identifier names. -/
inductive IdentRole where
  | node
  | region
  | holder
deriving DecidableEq

/-- A text that names something in the role `r`. -/
structure Ident (r : IdentRole) where
  text : String
deriving DecidableEq, Inhabited, Hashable

/-- The name of a network node, unique within its region. -/
abbrev NodeId := Ident .node

/-- The name of a region whose network is built on its own. -/
abbrev RegionId := Ident .region

/-- The name of whoever holds track, usually a train. -/
abbrev HolderId := Ident .holder

namespace Ident

variable {r : IdentRole}

/-! ## Order -/

instance : Ord (Ident r) := ⟨compareOn Ident.text⟩

instance : Std.TransOrd (Ident r) :=
  inferInstanceAs (Std.TransCmp (compareOn Ident.text))

instance : Std.LawfulEqOrd (Ident r) where
  eq_of_compare {a b} h := by
    have h' : compare a.text b.text = .eq := h
    cases a; cases b
    simpa using Std.LawfulEqOrd.eq_of_compare h'

instance : LT (Ident r) := ⟨fun a b => a.text < b.text⟩
instance : LE (Ident r) := ⟨fun a b => a.text ≤ b.text⟩
instance (a b : Ident r) : Decidable (a < b) := inferInstanceAs (Decidable (a.text < b.text))
instance (a b : Ident r) : Decidable (a ≤ b) := inferInstanceAs (Decidable (a.text ≤ b.text))

theorem lt_def {a b : Ident r} : a < b ↔ a.text < b.text := Iff.rfl

theorem compare_def (a b : Ident r) : compare a b = compare a.text b.text := rfl

theorem compare_eq_lt {a b : Ident r} : compare a b = .lt ↔ a < b := by
  rw [compare_def, lt_def]
  show compareOfLessAndEq a.text b.text = .lt ↔ _
  unfold compareOfLessAndEq
  split
  · simp_all
  · split <;> simp_all

theorem not_lt {a b : Ident r} : ¬ a < b ↔ b ≤ a := String.not_lt

theorem le_total (a b : Ident r) : a ≤ b ∨ b ≤ a := String.le_total a.text b.text

theorem le_antisymm {a b : Ident r} (h : a ≤ b) (h' : b ≤ a) : a = b := by
  cases a; cases b
  simpa using String.le_antisymm h h'

theorem isLE_compare {a b : Ident r} : (compare a b).isLE = true ↔ a ≤ b := by
  rw [← not_lt, ← compare_eq_lt, ← Std.OrientedCmp.gt_iff_lt]
  cases compare a b <;> simp

theorem lt_irrefl (a : Ident r) : ¬ a < a := not_lt.2 ((le_total a a).elim id id)

theorem lt_iff_le_and_ne {a b : Ident r} : a < b ↔ a ≤ b ∧ a ≠ b := by
  constructor
  · intro h
    refine ⟨not_lt.1 fun h' => ?_, ?_⟩
    · rw [← compare_eq_lt] at h h'
      exact Std.OrientedCmp.not_lt_of_lt h h'
    · rintro rfl
      exact lt_irrefl a h
  · rintro ⟨hle, hne⟩
    cases hc : compare a b with
    | lt => exact compare_eq_lt.1 hc
    | eq => exact absurd (Std.LawfulEqOrd.eq_of_compare hc) hne
    | gt =>
      rw [← isLE_compare, hc] at hle
      cases hle

theorem le_trans {a b c : Ident r} (h : a ≤ b) (h' : b ≤ c) : a ≤ c := String.le_trans h h'

theorem lt_of_lt_of_le {a b c : Ident r} (h : a < b) (h' : b ≤ c) : a < c :=
  Classical.not_not.1 fun no => not_lt.2 (le_trans h' (not_lt.1 no)) h

/-! ## Text -/

/-- The empty text names nothing. -/
def isEmpty (a : Ident r) : Bool := a.text.isEmpty

instance : ToString (Ident r) := ⟨Ident.text⟩

theorem ext_text {a b : Ident r} (h : a.text = b.text) : a = b := by
  cases a; cases b; simpa using h

end Ident

end Signalbox
