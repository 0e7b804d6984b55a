import Signalbox.Numeral.Rounding
import Signalbox.Track.Basic

/-!
# The nearest track

To snap a position onto track, the laid cells at the least straight-line distance are taken, all of
them if several are equally near, provided they lie within a radius.  Squared distances are sums of
three squares rounded to 53 binary digits after every operation, so very distant cells may tie.

* `Track.mem_nearest` : a cell is found exactly if it is laid, no laid cell is nearer, and it lies
  within the radius;
* `Host`              : laid track together with whatever answers where the nearest of it is.
-/

set_option autoImplicit false

namespace Signalbox

/-- The squared distance of two cells with every intermediate result rounded to 53 digits. -/
def Cell.separation (a b : Cell) : Nat :=
  let sq (d : Int) : Nat := Rounding.roundBits 53 (d.natAbs * d.natAbs)
  let dx := sq (a.x.toInt - b.x.toInt)
  let dy := sq (a.y.toInt - b.y.toInt)
  let dz := sq (a.z.toInt - b.z.toInt)
  Rounding.roundBits 53 (Rounding.roundBits 53 (dx + dy) + dz)

namespace Track

/-- The least separation of a laid cell from `p`. -/
def leastSeparation (t : Track) (p : Cell) : Option Nat := (t.toList.map p.separation).min?

/-- The laid cells nearest to `p` in ascending order, none if they lie beyond the radius. -/
def nearest (t : Track) (p : Cell) (radius : UInt32) : List Cell :=
  match t.leastSeparation p with
  | none => []
  | some best =>
    if Rounding.roundBits 53 (radius.toNat * radius.toNat) < best then []
    else t.toList.filter fun c => p.separation c = best

theorem mem_nearest {t : Track} {p c : Cell} {radius : UInt32} :
    c ∈ t.nearest p radius ↔
      c ∈ t ∧ (∀ d ∈ t, p.separation c ≤ p.separation d) ∧
        p.separation c ≤ Rounding.roundBits 53 (radius.toNat * radius.toNat) := by
  unfold nearest
  cases hb : t.leastSeparation p with
  | none =>
    rw [leastSeparation, List.min?_eq_none_iff, List.map_eq_nil_iff] at hb
    simp only [List.not_mem_nil, false_iff, not_and]
    intro hc
    rw [← mem_toList, hb] at hc
    simp at hc
  | some best =>
    rw [leastSeparation, List.min?_eq_some_iff] at hb
    obtain ⟨hmem, hle⟩ := hb
    obtain ⟨m, hm, rfl⟩ := List.mem_map.1 hmem
    have hle' : ∀ d ∈ t, p.separation m ≤ p.separation d := fun d hd =>
      hle _ (List.mem_map.2 ⟨d, mem_toList.2 hd, rfl⟩)
    have hm' := mem_toList.1 hm
    simp only
    split
    · rename_i hbig
      simp only [List.not_mem_nil, false_iff, not_and]
      intro hc _
      exact Nat.not_le.2 (Nat.lt_of_lt_of_le hbig (hle' c hc))
    · rename_i hbig
      simp only [List.mem_filter, mem_toList, decide_eq_true_eq]
      constructor
      · rintro ⟨hc, he⟩
        rw [he]
        exact ⟨hc, hle', Nat.le_of_not_lt hbig⟩
      · rintro ⟨hc, hmin, _⟩
        exact ⟨hc, Nat.le_antisymm (hmin m hm') (hle' c hc)⟩

end Track

/-! ## Hosts -/

/-- The ground that builds are for, by its answers to them: the laid track, for its cells and their
neighbours, and the track near a position, however the host may look that up. -/
structure Host where
  laid : Track
  nearest : Cell → UInt32 → List Cell
  nearest_laid : ∀ (p : Cell) (radius : UInt32) (c : Cell), c ∈ nearest p radius → c ∈ laid

namespace Host

theorem ext {h k : Host} (laid : ∀ c, c ∈ h.laid ↔ c ∈ k.laid)
    (nearest : ∀ p radius, h.nearest p radius = k.nearest p radius) : h = k := by
  cases h; cases k
  obtain rfl := Track.ext laid
  obtain rfl := funext fun p => funext (nearest p)
  rfl

end Host

/-- The host that scans its track. -/
@[coe] def Track.host (t : Track) : Host where
  laid := t
  nearest := t.nearest
  nearest_laid _ _ _ hc := (mem_nearest.1 hc).1

instance : Coe Track Host := ⟨Track.host⟩

instance : Inhabited Host := ⟨Track.empty⟩

@[simp] theorem Track.laid_host (t : Track) : (t : Host).laid = t := rfl

@[simp] theorem Track.nearest_host (t : Track) (p : Cell) (radius : UInt32) :
    (t : Host).nearest p radius = t.nearest p radius := rfl

end Signalbox
