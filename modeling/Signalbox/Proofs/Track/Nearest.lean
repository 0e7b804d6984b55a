import Signalbox.Track.Nearest

/-!
# What is near a position

Track near a position is looked for with squared distances that are rounded to 53 binary digits, and
markers near a position with squared distances in 64-bit words.  Rounding is only felt from
`2 ^ 53` on, so the track found is the nearest one by its true distance unless all of it is that far
away; and words tell the true distance as long as none of them overflows.

* `Track.nearest_eq_closest`  : the track found is the closest one, unless rounding blurs it;
* `Track.closest_subset`      : the radius decides whether track is found, but not which;
* `Cell.distanceSq_le_reach`  : words tell what is within a radius unless they overflow.
-/

set_option autoImplicit false

namespace Signalbox

/-! ## Rounding -/

namespace Rounding

theorem div_le_roundDiv (n d : Nat) : n / d ≤ roundDiv n d := by
  simp only [roundDiv]
  split
  · exact Nat.le_refl _
  · split <;> omega

/-- Rounding to `p` digits is only felt from two to the power of `p` on. -/
theorem min_roundBits {p : Nat} (hp : 0 < p) (n : Nat) :
    min (roundBits p n) (twoTo p) = min n (twoTo p) := by
  by_cases zero : n = 0
  · simp [zero, roundBits, roundDiv]
  by_cases few : n.log2 < p
  · rw [roundBits_of_lt few]
  -- both are at least two to the power of `p`
  have large : twoTo p ≤ n :=
    Nat.le_trans (Nat.pow_le_pow_right (by decide) (Nat.not_lt.1 few)) (Nat.log2_self_le zero)
  obtain ⟨s, hs⟩ : ∃ s, n.log2 + 1 - p = s + 1 := ⟨n.log2 - p, by omega⟩
  have digits : twoTo (p - 1) ≤ n / twoTo (s + 1) := by
    rw [Nat.le_div_iff_mul_le (twoTo_pos _)]
    calc twoTo (p - 1) * twoTo (s + 1) = twoTo n.log2 := by
          show 2 ^ (p - 1) * 2 ^ (s + 1) = 2 ^ n.log2
          rw [← Nat.pow_add]
          congr 1
          omega
      _ ≤ n := Nat.log2_self_le zero
  have rounded : twoTo p ≤ roundBits p n := by
    simp only [roundBits, hs]
    calc twoTo p ≤ twoTo (p - 1) * twoTo (s + 1) := by
          show 2 ^ p ≤ 2 ^ (p - 1) * 2 ^ (s + 1)
          rw [← Nat.pow_add]
          exact Nat.pow_le_pow_right (by decide) (by omega)
      _ ≤ roundDiv n (twoTo (s + 1)) * twoTo (s + 1) :=
          Nat.mul_le_mul_right _ (Nat.le_trans digits (div_le_roundDiv _ _))
  rw [Nat.min_eq_right rounded, Nat.min_eq_right large]

end Rounding

/-! ## Distances -/

namespace Cell

variable {a b p c : Cell} {radius : UInt32}

/-- The true squared distance of two cells. -/
def exactSq (a b : Cell) : Nat :=
  let sq (d : Int) : Nat := d.natAbs * d.natAbs
  sq (a.x.toInt - b.x.toInt) + sq (a.y.toInt - b.y.toInt) + sq (a.z.toInt - b.z.toInt)

/-- The squared distances below this bound are exact in spite of rounding. -/
def roundingBound : Nat := twoTo 53

/-- Rounded distances differ from the true ones only above the bound. -/
theorem min_separation (a b : Cell) :
    min (a.separation b) roundingBound = min (a.exactSq b) roundingBound := by
  have rounds (n : Nat) := Rounding.min_roundBits (p := 53) (by decide) n
  simp only [separation, exactSq, roundingBound]
  generalize (a.x.toInt - b.x.toInt).natAbs * (a.x.toInt - b.x.toInt).natAbs = x
  generalize (a.y.toInt - b.y.toInt).natAbs * (a.y.toInt - b.y.toInt).natAbs = y
  generalize (a.z.toInt - b.z.toInt).natAbs * (a.z.toInt - b.z.toInt).natAbs = z
  have hx := rounds x
  have hy := rounds y
  have hz := rounds z
  generalize Rounding.roundBits 53 x = x' at *
  generalize Rounding.roundBits 53 y = y' at *
  generalize Rounding.roundBits 53 z = z' at *
  have hxy := rounds (x' + y')
  generalize Rounding.roundBits 53 (x' + y') = xy at *
  have hxyz := rounds (xy + z')
  omega

/-! ### Distances in words -/

/-- No difference of coordinates leaves a 32-bit word, and their squares do not sum up to more than
a 64-bit word holds. -/
structure Fits (a b : Cell) : Prop where
  x : -negatives32 ≤ a.x.toInt - b.x.toInt ∧ a.x.toInt - b.x.toInt < negatives32
  y : -negatives32 ≤ a.y.toInt - b.y.toInt ∧ a.y.toInt - b.y.toInt < negatives32
  z : -negatives32 ≤ a.z.toInt - b.z.toInt ∧ a.z.toInt - b.z.toInt < negatives32
  sum : a.exactSq b < negatives64

instance (a b : Cell) : Decidable (Fits a b) :=
  decidable_of_iff
    ((-negatives32 ≤ a.x.toInt - b.x.toInt ∧ a.x.toInt - b.x.toInt < negatives32) ∧
      (-negatives32 ≤ a.y.toInt - b.y.toInt ∧ a.y.toInt - b.y.toInt < negatives32) ∧
      (-negatives32 ≤ a.z.toInt - b.z.toInt ∧ a.z.toInt - b.z.toInt < negatives32) ∧
      a.exactSq b < negatives64)
    ⟨fun ⟨x, y, z, sum⟩ => ⟨x, y, z, sum⟩, fun ⟨x, y, z, sum⟩ => ⟨x, y, z, sum⟩⟩

/-- **Words tell the true distance** unless they overflow. -/
theorem toInt_distanceSq (h : Fits a b) : (a.distanceSq b).toInt = a.exactSq b := by
  have difference {m n : Int32}
      (fits : -negatives32 ≤ m.toInt - n.toInt ∧ m.toInt - n.toInt < negatives32) :
      (m - n).toInt64.toInt = m.toInt - n.toInt := by
    rw [Int32.toInt_toInt64, Int32.toInt_sub]
    simp only [negatives32] at fits
    exact Int.bmod_eq_of_le_mul_two (by omega) (by omega)
  have word {n : Int} (low : 0 ≤ n) (high : n < negatives64) : n.bmod (2 ^ 64) = n := by
    simp only [negatives64] at high
    exact Int.bmod_eq_of_le_mul_two (by omega) (by omega)
  have sum := h.sum
  simp only [exactSq] at sum ⊢
  simp only [distanceSq, Int64.toInt_add, Int64.toInt_mul, difference h.x, difference h.y,
    difference h.z, ← Int.natAbs_mul_self]
  generalize (a.x.toInt - b.x.toInt).natAbs * (a.x.toInt - b.x.toInt).natAbs = x at *
  generalize (a.y.toInt - b.y.toInt).natAbs * (a.y.toInt - b.y.toInt).natAbs = y at *
  generalize (a.z.toInt - b.z.toInt).natAbs * (a.z.toInt - b.z.toInt).natAbs = z at *
  rw [word (n := (x : Int)), word (n := (y : Int)), word (n := (z : Int)),
    word (n := (x : Int) + y), word (n := (x : Int) + y + z)] <;> omega

/-- The square of a radius, in 64-bit words. -/
def reach (radius : UInt32) : Int64 := Int64.ofNat radius.toNat * Int64.ofNat radius.toNat

theorem toInt_reach (square : radius.toNat * radius.toNat < negatives64) :
    (reach radius).toInt = (radius.toNat * radius.toNat : Nat) := by
  have word : (Int64.ofNat radius.toNat).toInt = radius.toNat :=
    Int64.toInt_ofNat_of_lt (by have := radius.toNat_lt; omega)
  simp only [negatives64] at square
  rw [reach, Int64.toInt_mul, word, ← Int.natCast_mul]
  exact Int.bmod_eq_of_le_mul_two (by omega) (by omega)

/-- **Words tell what is within a radius** unless they overflow. -/
theorem distanceSq_le_reach (fits : Fits a b) (square : radius.toNat * radius.toNat < negatives64) :
    a.distanceSq b ≤ reach radius ↔ a.exactSq b ≤ radius.toNat * radius.toNat := by
  rw [Int64.le_iff_toInt_le, toInt_distanceSq fits, toInt_reach square, Int.ofNat_le]

end Cell

/-! ## The nearest track -/

namespace Track

variable {t : Track} {p c : Cell} {radius wider : UInt32}

theorem nearest_cases (t : Track) (p : Cell) (radius : UInt32) :
    t.nearest p radius = [] ∨
      t.nearest p radius = t.toList.filter fun d => t.leastSeparation p = some (p.separation d) := by
  unfold nearest
  cases t.leastSeparation p with
  | none => exact Or.inl rfl
  | some best =>
    simp only
    split
    · exact Or.inl rfl
    · exact Or.inr (List.filter_congr fun d _ => by simp [eq_comm])

/-! ### The closest track -/

/-- The laid cells that are closest to `p` by their true distance, in ascending order, none if they
lie beyond the radius. -/
def closest (t : Track) (p : Cell) (radius : UInt32) : List Cell :=
  t.toList.filter fun c => decide ((∀ d ∈ t.toList, p.exactSq c ≤ p.exactSq d) ∧
    p.exactSq c ≤ radius.toNat * radius.toNat)

theorem mem_closest : c ∈ t.closest p radius ↔ c ∈ t ∧ (∀ d ∈ t, p.exactSq c ≤ p.exactSq d) ∧
    p.exactSq c ≤ radius.toNat * radius.toNat := by
  simp only [closest, List.mem_filter, mem_toList, decide_eq_true_eq]

/-- Rounding does not blur which track is closest to `p`: either the radius is so small that distances
within it are not rounded, or some track is so near. -/
def Sharp (t : Track) (p : Cell) (radius : UInt32) : Prop :=
  radius.toNat * radius.toNat < Cell.roundingBound ∨ ∃ d ∈ t, p.exactSq d < Cell.roundingBound

theorem mem_nearest_iff_closest (sharp : t.Sharp p radius) :
    c ∈ t.nearest p radius ↔ c ∈ t.closest p radius := by
  have square := Rounding.min_roundBits (p := 53) (by decide) (radius.toNat * radius.toNat)
  have rounds (d : Cell) := Cell.min_separation p d
  have hc := rounds c
  simp only [Sharp, Cell.roundingBound] at sharp rounds hc
  rw [mem_nearest, mem_closest]
  refine and_congr_right fun _ => ?_
  constructor
  · rintro ⟨least, within⟩
    have unrounded : p.exactSq c < twoTo 53 := by
      rcases sharp with small | ⟨d, hd, small⟩
      · omega
      · have nearer := least d hd
        have hd := rounds d
        omega
    refine ⟨fun d hd => ?_, by omega⟩
    have nearer := least d hd
    have hd := rounds d
    omega
  · rintro ⟨least, within⟩
    have unrounded : p.exactSq c < twoTo 53 := by
      rcases sharp with small | ⟨d, hd, small⟩
      · omega
      · exact Nat.lt_of_le_of_lt (least d hd) small
    refine ⟨fun d hd => ?_, by omega⟩
    have nearer := least d hd
    have hd := rounds d
    omega

/-- **The track found is the closest one**, unless rounding blurs which one that is. -/
theorem nearest_eq_closest (sharp : t.Sharp p radius) : t.nearest p radius = t.closest p radius := by
  have scan : t.nearest p radius = t.toList.filter fun c => decide (c ∈ t.nearest p radius) := by
    rcases nearest_cases t p radius with nothing | found
    · simp [nothing]
    · rw [found]
      exact List.filter_congr fun c hc => by simp [List.mem_filter, mem_toList.1 hc]
  rw [scan, closest]
  refine List.filter_congr fun c hc => ?_
  rw [decide_eq_decide, mem_nearest_iff_closest sharp, mem_closest]
  simp only [mem_toList.1 hc, mem_toList, true_and]

/-- **The radius decides whether track is found, but not which.** -/
theorem closest_subset (laid : t.closest p wider ≠ []) : t.closest p radius ⊆ t.closest p wider := by
  intro c found
  obtain ⟨hc, least, -⟩ := mem_closest.1 found
  obtain ⟨d, found'⟩ := List.exists_mem_of_ne_nil _ laid
  obtain ⟨hd, -, within⟩ := mem_closest.1 found'
  exact mem_closest.2 ⟨hc, least, Nat.le_trans (least d hd) within⟩

theorem closest_eq_nil_iff :
    t.closest p radius = [] ↔ ∀ d ∈ t, radius.toNat * radius.toNat < p.exactSq d := by
  constructor
  · intro nothing d hd
    refine Nat.lt_of_not_le fun within => ?_
    cases least : (t.toList.map p.exactSq).min? with
    | none =>
      rw [List.min?_eq_none_iff, List.map_eq_nil_iff] at least
      rw [← mem_toList, least] at hd
      cases hd
    | some best =>
      obtain ⟨mem, bound⟩ := List.min?_eq_some_iff.1 least
      obtain ⟨c, hc, rfl⟩ := List.mem_map.1 mem
      have nearer (e : Cell) (he : e ∈ t) : p.exactSq c ≤ p.exactSq e :=
        bound _ (List.mem_map_of_mem (mem_toList.2 he))
      have found : c ∈ t.closest p radius :=
        mem_closest.2 ⟨mem_toList.1 hc, nearer, Nat.le_trans (nearer d hd) within⟩
      rw [nothing] at found
      cases found
  · intro far
    refine List.eq_nil_iff_forall_not_mem.2 fun c found => ?_
    obtain ⟨hc, -, within⟩ := mem_closest.1 found
    exact Nat.not_le.2 (far c hc) within

end Track

end Signalbox
