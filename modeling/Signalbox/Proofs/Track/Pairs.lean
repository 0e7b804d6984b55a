import Mathlib.Data.Set.Card
import Mathlib.Data.Sym.Sym2
import Signalbox.Proofs.Track.Walk

/-!
# Pairs of neighbouring cells

A cell lists each of its neighbours once and never itself, so the neighbours of a cell and the pairs
that it makes with them are equally many.

* `Track.nodup_neighbors`, `Track.not_mem_neighbors_self` : how neighbours are listed;
* `Track.pairsFrom` : the pairs of neighbouring cells connected to some cells.
-/

set_option autoImplicit false

namespace Signalbox

namespace Track

variable {t : Track} {c d : Cell} {cells : Set Cell}

/-! ## Neighbours -/

/-- The displacements that lead to the surroundings of a cell. -/
def displacements : List (Int32 × Int32 × Int32) :=
  directions.flatMap fun (dx, dz) => slopes.map fun dy => (dx, dy, dz)

theorem surroundings_eq_map (c : Cell) :
    surroundings c = displacements.map fun p => c.offset p.1 p.2.1 p.2.2 := rfl

theorem offset_injective (c : Cell) :
    Function.Injective fun p : Int32 × Int32 × Int32 => c.offset p.1 p.2.1 p.2.2 := by
  rintro ⟨dx, dy, dz⟩ ⟨ex, ey, ez⟩ h
  simpa [Cell.offset] using h

theorem nodup_neighbors (t : Track) (c : Cell) : (t.neighbors c).Nodup := by
  apply List.Nodup.filter
  rw [surroundings_eq_map]
  exact List.Nodup.map (offset_injective c) (by decide)

theorem not_mem_neighbors_self (t : Track) (c : Cell) : c ∉ t.neighbors c := by
  intro h
  have around := (mem_neighbors.1 h).1
  rw [surroundings_eq_map, List.mem_map] at around
  obtain ⟨p, hp, same⟩ := around
  have still : c.offset p.1 p.2.1 p.2.2 = c.offset 0 0 0 :=
    same.trans (by simp [Cell.offset])
  have zero : p = (0, 0, 0) := offset_injective c still
  rw [zero] at hp
  exact absurd hp (by decide)

/-! ## Pairs -/

/-- The pairs of neighbouring cells that are connected to some cells. -/
def pairsFrom (t : Track) (cells : Set Cell) : Set (Sym2 Cell) :=
  {p | ∃ a ∈ cells, ∃ c d, t.Connected a c ∧ d ∈ t.neighbors c ∧ p = s(c, d)}

theorem finite_pairsFrom (laid : ∀ a ∈ cells, a ∈ t) : (t.pairsFrom cells).Finite := by
  have cells_finite : {c | c ∈ t.toList}.Finite := List.finite_toSet t.toList
  refine ((cells_finite.prod cells_finite).image fun p => s(p.1, p.2)).subset ?_
  rintro p ⟨a, ha, c, d, ⟨n, hw⟩, hd, rfl⟩
  exact ⟨(c, d), ⟨mem_toList.2 (hw.mem (laid a ha)), mem_toList.2 (mem_of_mem_neighbors hd)⟩, rfl⟩

end Track

theorem ncard_setOf_mem {α : Type} {l : List α} (h : l.Nodup) : {a | a ∈ l}.ncard = l.length := by
  classical
  rw [← List.toFinset_card_of_nodup h, ← Set.ncard_coe_finset, List.coe_toFinset]

theorem size_eq_ncard {κ : Type} [Ord κ] [Std.TransOrd κ] [Std.LawfulEqOrd κ]
    {s : Std.ExtTreeSet κ} {keys : Set κ} (h : ∀ k, k ∈ s ↔ k ∈ keys) : s.size = keys.ncard := by
  have nodup : s.toList.Nodup := by
    refine Std.ExtTreeSet.distinct_toList.imp fun apart same => apart ?_
    rw [same, Std.compare_self]
  have same : {k | k ∈ s.toList} = keys := by
    ext k
    rw [Set.mem_ofPred_eq, Std.ExtTreeSet.mem_toList, h]
  rw [← same, ncard_setOf_mem nodup, Std.ExtTreeSet.length_toList]

end Signalbox
