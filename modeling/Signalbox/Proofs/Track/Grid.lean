import Mathlib.Data.List.Nodup
import Signalbox.Proofs.Lookup
import Signalbox.Proofs.Track.Nearest
import Signalbox.Track.Grid

/-!
# What a grid knows

Whatever is laid and taken up, the points in the spatial index of a grid are those of its laid cells,
each once.  So the track near a position, which is read off the front of a list of points by distance,
is the track that a scan of all laid cells finds.  How the index came about does not show: neither the
order in which it was filled nor that in which it lists points at the same distance.

* `PointIndex.Lawful`       : what is relied on of a spatial index;
* `Grid.inStep_ofPlan`      : a plan keeps the index in step with the track;
* `Grid.InStep.nearest_eq`  : the nearest track is that of a scan.
-/

set_option autoImplicit false

namespace Signalbox

variable {σ : Type} {ix : PointIndex σ} {points : σ → List Point}

/-! ## Spatial indexes -/

/-- What is relied on of a spatial index, given the points that each of its states keeps: a point is
put in once more or taken out once, and the points are listed with their distances in ascending order
of these.  Points at the same distance may be listed in any order. -/
structure PointIndex.Lawful (ix : PointIndex σ) (points : σ → List Point) : Prop where
  empty : points ix.empty = []
  insert (s : σ) (p : Point) : (points (ix.insert s p)).Perm (p :: points s)
  remove (s : σ) (p : Point) : (points (ix.remove s p)).Perm ((points s).erase p)
  listed (s : σ) (q : Point) : ((ix.byDistance s q).map Prod.fst).Perm (points s)
  distance (s : σ) (q : Point) : ∀ e ∈ ix.byDistance s q, e.2 = q.separation e.1
  ascending (s : σ) (q : Point) : (ix.byDistance s q).Pairwise fun d e => d.2 ≤ e.2

/-! ## Points of cells -/

@[simp] theorem Cell.cell_point (c : Cell) : c.point.cell = c := by
  simp only [point, Point.cell, Int32.ofIntClamp_toInt]

theorem Cell.point_injective : Function.Injective Cell.point := fun c d h => by
  rw [← c.cell_point, h, d.cell_point]

theorem Cell.separation_point (c d : Cell) : c.point.separation d.point = c.separation d := rfl

/-! ## The cells of a track -/

namespace Track

variable {t : Track} {c : Cell}

theorem sorted_toList (t : Track) : t.toList.Pairwise fun a b => compare a b = .lt :=
  Std.ExtTreeSet.ordered_toList

theorem nodup_toList (t : Track) : t.toList.Nodup := by
  refine t.sorted_toList.imp fun {a b} before same => ?_
  rw [same, Std.compare_self] at before
  cases before

theorem toList_insert_perm (new : c ∉ t) : (t.insert c).toList.Perm (c :: t.toList) := by
  rw [List.perm_ext_iff_of_nodup (nodup_toList _) (List.nodup_cons.2 ⟨?_, nodup_toList t⟩)]
  · simp
  · rwa [mem_toList]

theorem toList_erase_perm (t : Track) (c : Cell) :
    (t.erase c).toList.Perm (t.toList.erase c) := by
  rw [List.perm_ext_iff_of_nodup (nodup_toList _) ((nodup_toList t).erase c)]
  simp [(nodup_toList t).mem_erase_iff]

end Track

namespace Grid

variable {g : Grid σ} {t : Track} {p c : Cell} {radius : UInt32}

/-! ## In step -/

/-- A grid has laid some track, and its index keeps the points of that track. -/
structure InStep (points : σ → List Point) (g : Grid σ) (t : Track) : Prop where
  laid : g.laid = t
  indexed : (points g.index).Perm (t.toList.map Cell.point)

section

variable (lawful : ix.Lawful points)
include lawful

theorem inStep_empty : InStep points (Grid.empty ix) .empty where
  laid := rfl
  indexed := by
    have nothing : Track.empty.toList = [] := by simp [List.eq_nil_iff_forall_not_mem]
    rw [nothing, Grid.empty, lawful.empty]
    rfl

theorem InStep.lay (h : InStep points g t) (c : Cell) :
    InStep points (g.lay ix c).1 (t.lay c).1 ∧ (g.lay ix c).2 = (t.lay c).2 := by
  unfold Grid.lay Track.lay Track.isTrack
  rw [h.laid]
  by_cases old : c ∈ t
  · have same : t.insert c = t := Track.ext fun d => by
      rw [Track.mem_insert]
      exact or_iff_right_of_imp fun hd => hd ▸ old
    rw [if_pos old, same]
    exact ⟨h, by simp [old]⟩
  · rw [if_neg old]
    refine ⟨⟨rfl, ?_⟩, by simp [old]⟩
    exact ((lawful.insert _ _).trans (h.indexed.cons _)).trans
      ((Track.toList_insert_perm old).map Cell.point).symm

theorem InStep.takeUp (h : InStep points g t) (c : Cell) :
    InStep points (g.takeUp ix c).1 (t.takeUp c).1 ∧ (g.takeUp ix c).2 = (t.takeUp c).2 := by
  unfold Grid.takeUp Track.takeUp Track.isTrack
  rw [h.laid]
  by_cases old : c ∈ t
  · rw [if_pos old]
    refine ⟨⟨rfl, ?_⟩, by simp [old]⟩
    refine ((lawful.remove _ _).trans (h.indexed.erase _)).trans ?_
    rw [← List.map_erase Cell.point_injective]
    exact ((t.toList_erase_perm c).map Cell.point).symm
  · have same : t.erase c = t := Track.ext fun d => by
      rw [Track.mem_erase]
      exact and_iff_right_of_imp fun hd he => old (he ▸ hd)
    rw [if_neg old, same]
    exact ⟨h, by simp [old]⟩

theorem InStep.layAll (h : InStep points g t) (cs : List Cell) :
    InStep points (g.layAll ix cs).1 (t.layAll cs).1 ∧ (g.layAll ix cs).2 = (t.layAll cs).2 := by
  refine List.foldl_rel
    (r := fun (a : Grid σ × Nat) (b : Track × Nat) => InStep points a.1 b.1 ∧ a.2 = b.2) ⟨h, rfl⟩ ?_
  rintro c - ⟨g, m⟩ ⟨t, n⟩ ⟨h, rfl⟩
  obtain ⟨next, answer⟩ := h.lay lawful c
  exact ⟨next, by simp only [answer]⟩

theorem InStep.layPath (h : InStep points g t) (stops : List Cell) :
    InStep points (g.layPath ix stops).1 (t.layPath stops).1 ∧
      (g.layPath ix stops).2 = (t.layPath stops).2 := by
  induction stops generalizing g t with
  | nil => exact ⟨h, rfl⟩
  | cons a stops ih =>
    cases stops with
    | nil => exact ⟨h, rfl⟩
    | cons b stops =>
      obtain ⟨first, counted⟩ := h.layAll lawful (Track.run a b)
      obtain ⟨rest, counted'⟩ := ih first
      exact ⟨rest, congrArg₂ (· + ·) counted counted'⟩

/-- A step of a plan keeps the index in step with the track, and reports what the track tells. -/
theorem InStep.carryOut (h : InStep points g t) (step : Track.LayingStep) :
    InStep points (g.carryOut ix step).1 (t.carryOut step).1 ∧
      (g.carryOut ix step).2 = (t.carryOut step).2 := by
  cases step with
  | cell c =>
    obtain ⟨next, answer⟩ := h.lay lawful c
    exact ⟨next, congrArg Bool.toNat answer⟩
  | remove c =>
    obtain ⟨next, answer⟩ := h.takeUp lawful c
    exact ⟨next, congrArg Bool.toNat answer⟩
  | line a b => exact h.layAll lawful (Track.run a b)
  | path stops => exact h.layPath lawful stops

/-- **A plan keeps the index in step with the track.** -/
theorem inStep_ofPlan (plan : List Track.LayingStep) :
    InStep points (Grid.ofPlan ix plan) (Track.ofPlan plan) :=
  List.foldl_rel (r := InStep points) (inStep_empty lawful)
    fun step _ _ _ h => (h.carryOut lawful step).1

end

/-! ## The nearest track -/

/-- The points of the cells of a track, listed by their distance from a position. -/
structure ListsByDistance (p : Cell) (t : Track) (es : List (Point × Nat)) : Prop where
  cells : (es.map fun e => e.1.cell).Perm t.toList
  distance : ∀ e ∈ es, e.2 = p.separation e.1.cell
  ascending : es.Pairwise fun d e => d.2 ≤ e.2

theorem InStep.listsByDistance (lawful : ix.Lawful points) (h : InStep points g t) (p : Cell) :
    ListsByDistance p t (ix.byDistance g.index p.point) := by
  have kept := (lawful.listed g.index p.point).trans h.indexed
  refine ⟨?cells, fun e he => ?distance, lawful.ascending g.index p.point⟩
  case cells =>
    have cells := kept.map Point.cell
    rw [List.map_map, List.map_map] at cells
    refine cells.trans (List.Perm.of_eq ?_)
    conv => rhs; rw [← List.map_id t.toList]
    exact List.map_congr_left fun c _ => c.cell_point
  case distance =>
    obtain ⟨c, -, hc⟩ := List.mem_map.1 (kept.mem_iff.1 (List.mem_map_of_mem he))
    rw [lawful.distance g.index p.point e he, ← hc, Cell.cell_point, Cell.separation_point]

namespace ListsByDistance

variable {first : Point} {best : Nat} {others : List (Point × Nat)}

theorem best_le (h : ListsByDistance p t ((first, best) :: others)) :
    ∀ e ∈ (first, best) :: others, best ≤ e.2 := by
  rw [List.forall_mem_cons]
  exact ⟨Nat.le_refl _, (List.pairwise_cons.1 h.ascending).1⟩

theorem least (h : ListsByDistance p t ((first, best) :: others)) :
    t.leastSeparation p = some best := by
  rw [Track.leastSeparation, List.min?_eq_some_iff]
  constructor
  · have front := h.distance _ (List.mem_cons_self ..)
    exact List.mem_map.2 ⟨first.cell, h.cells.mem_iff.1 (List.mem_cons_self ..), front.symm⟩
  · intro n hn
    obtain ⟨c, hc, rfl⟩ := List.mem_map.1 hn
    obtain ⟨e, he, rfl⟩ := List.mem_map.1 (h.cells.mem_iff.2 hc)
    rw [← h.distance e he]
    exact h.best_le e he

theorem takeWhile_eq_filter {es : List (Point × Nat)} {far : Nat}
    (ascending : es.Pairwise fun d e => d.2 ≤ e.2) :
    es.takeWhile (fun e => e.2 ≤ far) = es.filter fun e => e.2 ≤ far := by
  induction es with
  | nil => rfl
  | cons e es ih =>
    rw [List.pairwise_cons] at ascending
    by_cases near : e.2 ≤ far
    · simp [near, ih ascending.2]
    · have none_near : ∀ d ∈ es, ¬ d.2 ≤ far := fun d hd => by
        have further := ascending.1 d hd
        omega
      simpa [near] using none_near

/-- The cells that tie with the first one are those that a scan finds at the least distance. -/
theorem tied (h : ListsByDistance p t ((first, best) :: others)) :
    (first.cell :: (others.takeWhile fun e => e.2 ≤ best).map fun e => e.1.cell).Perm
      (t.toList.filter fun c => p.separation c = best) := by
  have front : first.cell :: (others.takeWhile fun e => e.2 ≤ best).map (fun e => e.1.cell) =
      (((first, best) :: others).filter fun e => e.2 ≤ best).map fun e => e.1.cell := by
    rw [takeWhile_eq_filter (List.pairwise_cons.1 h.ascending).2]
    simp
  rw [front]
  refine List.Perm.trans (List.Perm.of_eq ?_) (h.cells.filter _)
  rw [List.filter_map]
  refine congrArg _ (List.filter_congr fun e he => ?_)
  have further := h.best_le e he
  rw [h.distance e he] at further ⊢
  simp only [Function.comp_apply, decide_eq_decide]
  omega

end ListsByDistance

/-- Cells are put in order by sorting them, in whatever order they come. -/
theorem mergeSort_eq_of_perm {cs ds : List Cell} (perm : cs.Perm ds)
    (sorted : ds.Pairwise fun a b => compare a b = .lt) :
    (cs.mergeSort fun a b => (compare a b).isLE) = ds := by
  refine List.Perm.eq_of_pairwise ?antisymm (pairwise_mergeSort_compare cs) ?_
    ((List.mergeSort_perm _ _).trans perm)
  case antisymm =>
    exact fun a b _ _ le ge => Std.compare_eq_iff_eq.1 (Std.OrientedCmp.isLE_antisymm le ge)
  exact sorted.imp fun {a b} lt => by rw [lt]; rfl

/-- **The nearest track is that of a scan** of all laid cells. -/
theorem InStep.nearest_eq (lawful : ix.Lawful points) (h : InStep points g t) (p : Cell)
    (radius : UInt32) : g.nearest ix p radius = t.nearest p radius := by
  have lists := h.listsByDistance lawful p
  unfold Grid.nearest
  generalize ix.byDistance g.index p.point = listing at lists
  cases listing with
  | nil =>
    have nothing : t.toList = [] := lists.cells.symm.eq_nil
    simp [Track.nearest, Track.leastSeparation, nothing]
  | cons e others =>
    simp only [Track.nearest, lists.least]
    split
    · rfl
    · exact mergeSort_eq_of_perm lists.tied (t.sorted_toList.filter _)

end Grid

end Signalbox
