import Signalbox.Proofs.Survey.Merging
import Signalbox.Proofs.Survey.Trace
import Signalbox.Proofs.Track.Nearest

/-!
# Where a trace starts

A trace starts from the first of three sources that holds track: the cells chosen with a tool, the
track at the known marker that is closest to the requester, and the track at the requester.  Both
sources are described here by true distances, without the search for them.  A trace takes distances in
words and with rounding, so it finds them where no word overflows and nothing is blurred by rounding.

* `Marker.Closest`              : the marker closest to a position;
* `Trace.Exact`                 : distances around a trace are taken as they are;
* `Trace.nearestMarker?_eq_some_iff` : the marker that a trace chooses is the closest one;
* `Trace.startCells?_eq_some_iff`, `Trace.startCells?_eq_none_iff` : the start cells, and when
  there are none.
-/

set_option autoImplicit false

namespace Signalbox

/-! ## The closest marker -/

namespace Marker

variable {ms : List Marker} {p : Cell} {radius : UInt32} {m k : Marker}

/-- The closest to a position of the markers that count, provided it is within a radius; of several
at one distance it is the one whose id comes first. -/
structure Closest (ms : List Marker) (p : Cell) (radius : UInt32) (m : Marker) : Prop where
  counts : chosen? ms m.id = some m
  near : m.pos.exactSq p ≤ radius.toNat * radius.toNat
  first : ∀ k, chosen? ms k.id = some k →
    m.pos.exactSq p < k.pos.exactSq p ∨ (m.pos.exactSq p = k.pos.exactSq p ∧ m.id ≤ k.id)

theorem Closest.unique (h : Closest ms p radius m) (h' : Closest ms p radius k) : m = k := by
  have same : m.id = k.id := by
    rcases h.first k h'.counts with lt | ⟨eq, le⟩ <;> rcases h'.first m h.counts with lt' | ⟨eq', le'⟩
    · omega
    · omega
    · omega
    · exact Ident.le_antisymm le le'
  have counts := h.counts
  rw [same, h'.counts, Option.some.injEq] at counts
  exact counts.symm

/-- The least of some markers in the order of their ids comes first among those as near. -/
theorem first_of_minOn? {f : Marker → Int} {ks : List Marker}
    (sorted : (ks.map id).Pairwise (· < ·)) (h : ks.minOn? f = some m) :
    ∀ k ∈ ks, f m < f k ∨ (f m = f k ∧ m.id ≤ k.id) := by
  intro k hk
  obtain ⟨le, ties⟩ := least_of_minOn? (List.pairwise_map.1 sorted) h k hk
  by_cases nearer : f m < f k
  · exact Or.inl nearer
  · refine Or.inr ⟨by omega, ?_⟩
    rcases ties (by omega) with rfl | lt
    · exact String.le_refl _
    · exact String.not_lt.1 (String.lt_asymm lt)

end Marker

namespace Trace

variable {c : BuildSettings} {t : Track} {ms : MarkerRoll} {r : RegionId} {seeds : Seeds}
  {starts : List Cell} {o : StartOrigin} {s : Trace} {known : List Marker} {p : Cell} {m : Marker}

/-- **The marker that a trace chooses is the closest one**, where words tell the distances. -/
theorem nearestMarker?_eq_some_iff (merged : s.roster = Roster.empty.mergeAll known)
    (square : s.seedRadius.toNat * s.seedRadius.toNat < negatives64)
    (fits : ∀ k, Marker.chosen? known k.id = some k → k.pos.Fits p) :
    s.nearestMarker? p = some m ↔ Marker.Closest known p s.seedRadius m := by
  let near := s.roster.markers.filter fun m =>
    decide (m.pos.exactSq p ≤ s.seedRadius.toNat * s.seedRadius.toNat)
  have counts (k : Marker) : k ∈ s.roster.markers ↔ Marker.chosen? known k.id = some k := by
    rw [merged]
    exact Roster.mem_markers_mergeAll
  have mem (k : Marker) : k ∈ near ↔ Marker.chosen? known k.id = some k ∧
      k.pos.exactSq p ≤ s.seedRadius.toNat * s.seedRadius.toNat := by
    rw [List.mem_filter, counts, decide_eq_true_eq]
  have words : s.nearestMarker? p = near.minOn? fun m => (m.pos.distanceSq p).toInt := by
    have within : near = s.roster.markers.filter fun m =>
        decide (m.pos.distanceSq p ≤ Cell.reach s.seedRadius) := by
      refine List.filter_congr fun k hk => ?_
      exact decide_eq_decide.2 (Cell.distanceSq_le_reach (fits k ((counts k).1 hk)) square).symm
    rw [within]
    rfl
  have sorted : (near.map Marker.id).Pairwise (· < ·) := by
    have filed : s.roster.Filed := merged ▸ Roster.filed_empty.mergeAll known
    exact (Roster.sorted_markers filed).sublist (List.filter_sublist.map _)
  have sound {k : Marker} (h : s.nearestMarker? p = some k) :
      Marker.Closest known p s.seedRadius k := by
    rw [words] at h
    obtain ⟨hk, within⟩ := (mem k).1 (List.minOn?_mem h)
    refine ⟨hk, within, fun x hx => ?_⟩
    by_cases hw : x.pos.exactSq p ≤ s.seedRadius.toNat * s.seedRadius.toNat
    · have first := Marker.first_of_minOn? sorted h x ((mem x).2 ⟨hx, hw⟩)
      rwa [Cell.toInt_distanceSq (fits k hk), Cell.toInt_distanceSq (fits x hx), Int.ofNat_lt,
        Int.ofNat_inj] at first
    · exact Or.inl (by omega)
  constructor
  · exact sound
  · intro closest
    cases least : s.nearestMarker? p with
    | some k => rw [closest.unique (sound least)]
    | none =>
      have inside : m ∈ near := (mem m).2 ⟨closest.counts, closest.near⟩
      have some : (s.nearestMarker? p).isSome = true := words ▸ List.isSome_minOn?_of_mem inside
      rw [least] at some
      cases some

/-! ## Start cells -/

/-- The markers that a trace knows: those made with a tool, then those of the region. -/
def declared (ms : MarkerRoll) (r : RegionId) (seeds : Seeds) : List Marker :=
  seeds.toolMarkers ++ ms.markers r

/-- Distances around a trace are taken as they are: around a requester, neither those of the markers
that count nor the square of the seed radius overflow a word, and rounding blurs nowhere which track is
closest. -/
structure Exact (c : BuildSettings) (t : Track) (known : List Marker) (seeds : Seeds) : Prop where
  asked : ∀ p, seeds.requester = some p →
    c.seedRadius.toNat * c.seedRadius.toNat < negatives64 ∧ t.Sharp p c.seedRadius ∧
      ∀ k, Marker.chosen? known k.id = some k → k.pos.Fits p ∧ t.Sharp k.pos c.seedRadius
  anchored : ∀ k, Marker.chosen? known k.id = some k → t.Sharp k.pos c.anchorRadius

/-- What a trace starts from and why: the first of three sources that holds track. -/
inductive StartsFrom (c : BuildSettings) (t : Track) (known : List Marker) (seeds : Seeds) :
    List Cell → StartOrigin → Prop
  | tool (laid : seeds.toolCells.filter t.isTrack ≠ []) :
      StartsFrom c t known seeds (seeds.toolCells.filter t.isTrack) .tool
  | nearestMarker {p : Cell} {m : Marker} (noTool : seeds.toolCells.filter t.isTrack = [])
      (asked : seeds.requester = some p) (closest : Marker.Closest known p c.seedRadius m)
      (laid : t.closest m.pos c.seedRadius ≠ []) :
      StartsFrom c t known seeds (t.closest m.pos c.seedRadius) (.nearestMarker m.id)
  | requester {p : Cell} (noTool : seeds.toolCells.filter t.isTrack = [])
      (asked : seeds.requester = some p)
      (marker : ∀ m, Marker.Closest known p c.seedRadius m → t.closest m.pos c.seedRadius = [])
      (laid : t.closest p c.seedRadius ≠ []) :
      StartsFrom c t known seeds (t.closest p c.seedRadius) .requester

/-- None of the three sources holds track. -/
def Nowhere (c : BuildSettings) (t : Track) (known : List Marker) (seeds : Seeds) : Prop :=
  seeds.toolCells.filter t.isTrack = [] ∧ ∀ p, seeds.requester = some p →
    (∀ m, Marker.Closest known p c.seedRadius m → t.closest m.pos c.seedRadius = []) ∧
    t.closest p c.seedRadius = []

theorem StartsFrom.not_nowhere (h : StartsFrom c t known seeds starts o) :
    ¬ Nowhere c t known seeds := by
  rintro ⟨noTool, nothing⟩
  cases h with
  | tool laid => exact laid noTool
  | nearestMarker _ asked closest laid => exact laid ((nothing _ asked).1 _ closest)
  | requester _ asked _ laid => exact laid (nothing _ asked).2

theorem StartsFrom.marker {i : NodeId} (h : StartsFrom c t known seeds starts (.nearestMarker i)) :
    ∃ m, Marker.chosen? known i = some m ∧ starts = t.closest m.pos c.seedRadius ∧ starts ≠ [] := by
  generalize origin : StartOrigin.nearestMarker i = o at h
  cases h with
  | tool => cases origin
  | nearestMarker _ _ closest laid =>
    cases origin
    exact ⟨_, closest.counts, rfl, laid⟩
  | requester => cases origin

theorem StartsFrom.unique {starts' : List Cell} {o' : StartOrigin}
    (h : StartsFrom c t known seeds starts o) (h' : StartsFrom c t known seeds starts' o') :
    starts = starts' ∧ o = o' := by
  cases h with
  | tool laid =>
    cases h' with
    | tool => exact ⟨rfl, rfl⟩
    | nearestMarker noTool => exact absurd noTool laid
    | requester noTool => exact absurd noTool laid
  | nearestMarker noTool asked closest laid =>
    cases h' with
    | tool laid' => exact absurd noTool laid'
    | nearestMarker _ asked' closest' =>
      cases asked.symm.trans asked'
      cases closest.unique closest'
      exact ⟨rfl, rfl⟩
    | requester _ asked' marker =>
      cases asked.symm.trans asked'
      exact absurd (marker _ closest) laid
  | requester noTool asked marker =>
    cases h' with
    | tool laid' => exact absurd noTool laid'
    | nearestMarker _ asked' closest laid' =>
      cases asked.symm.trans asked'
      exact absurd (marker _ closest) laid'
    | requester _ asked' =>
      cases asked.symm.trans asked'
      exact ⟨rfl, rfl⟩

theorem roster_mustered (c : BuildSettings) (t : Host) (ms : MarkerRoll) (r : RegionId)
    (seeds : Seeds) :
    (mustered c t ms r seeds).roster = Roster.empty.mergeAll (declared ms r seeds) :=
  (Roster.mergeAll_append _ _ _).symm

/-- Some cells to start from, unless there are none. -/
def holding? (cells : List Cell) (o : StartOrigin) : Option (List Cell × StartOrigin) :=
  if cells = [] then none else some (cells, o)

theorem holding?_eq_none_iff {cells : List Cell} : holding? cells o = none ↔ cells = [] := by
  simp [holding?]

theorem eq_of_holding? {cells : List Cell} {o' : StartOrigin}
    (h : holding? cells o = some (starts, o')) : cells ≠ [] ∧ cells = starts ∧ o = o' := by
  simpa [holding?] using h

theorem startCells?_eq (s : Trace) : s.startCells? =
    (holding? (s.seeds.toolCells.filter s.host.laid.isTrack) .tool).or
      (s.seeds.requester.bind fun p =>
        ((s.nearestMarker? p).bind fun m =>
          holding? (s.host.nearest m.pos s.seedRadius) (.nearestMarker m.id)).or
        (holding? (s.host.nearest p s.seedRadius) .requester)) := by
  unfold startCells? holding?
  by_cases tool : s.seeds.toolCells.filter s.host.laid.isTrack = []
  · simp only [tool, ne_eq, not_true_eq_false, if_false, if_true, Option.none_or]
    split <;> rename_i asked
    · rw [asked, Option.bind_none]
    · rename_i p
      rw [asked, Option.bind_some]
      cases marker : s.nearestMarker? p with
      | none => cases s.host.nearest p s.seedRadius <;> rfl
      | some m =>
        rw [Option.bind_some]
        cases laid : s.host.nearest m.pos s.seedRadius with
        | nil => cases s.host.nearest p s.seedRadius <;> simp [laid]
        | cons d ds => simp [laid]
  · simp [tool]

theorem chosen_mustered (exact : Exact c t (declared ms r seeds) seeds)
    (asked : seeds.requester = some p) : (mustered c t ms r seeds).nearestMarker? p = some m ↔
      Marker.Closest (declared ms r seeds) p c.seedRadius m := by
  obtain ⟨square, -, markers⟩ := exact.asked p asked
  exact nearestMarker?_eq_some_iff (roster_mustered c t ms r seeds) square fun k hk =>
    (markers k hk).1

/-- The three sources of a trace that has all its markers, by true distances. -/
theorem startCells?_mustered (exact : Exact c t (declared ms r seeds) seeds) :
    (mustered c t ms r seeds).startCells? =
      (holding? (seeds.toolCells.filter t.isTrack) .tool).or
        (seeds.requester.bind fun p =>
          (((mustered c t ms r seeds).nearestMarker? p).bind fun m =>
            holding? (t.closest m.pos c.seedRadius) (.nearestMarker m.id)).or
          (holding? (t.closest p c.seedRadius) .requester)) := by
  rw [startCells?_eq]
  refine congrArg _ (Option.bind_congr fun p asked => ?_)
  obtain ⟨-, sharp, markers⟩ := exact.asked p asked
  refine congrArg₂ _ (Option.bind_congr fun m chosen => ?_) ?_
  · have closest := (chosen_mustered exact asked).1 chosen
    exact congrArg (holding? · _) (Track.nearest_eq_closest (markers m closest.counts).2)
  · exact congrArg (holding? · _) (Track.nearest_eq_closest sharp)

/-- **There are no start cells** exactly if none of the three sources holds track. -/
theorem startCells?_eq_none_iff (exact : Exact c t (declared ms r seeds) seeds) :
    (mustered c t ms r seeds).startCells? = none ↔ Nowhere c t (declared ms r seeds) seeds := by
  simp only [startCells?_mustered exact, Option.or_eq_none_iff, Option.bind_eq_none_iff,
    holding?_eq_none_iff]
  refine and_congr_right fun _ => forall₂_congr fun p asked => and_congr_left fun _ => ?_
  exact forall_congr' fun m => imp_congr_left (chosen_mustered exact asked)

theorem startsFrom_of_startCells? (exact : Exact c t (declared ms r seeds) seeds)
    (h : (mustered c t ms r seeds).startCells? = some (starts, o)) :
    StartsFrom c t (declared ms r seeds) seeds starts o := by
  rw [startCells?_mustered exact, Option.or_eq_some_iff] at h
  rcases h with tool | ⟨noTool, h⟩
  · obtain ⟨laid, rfl, rfl⟩ := eq_of_holding? tool
    exact .tool laid
  rw [holding?_eq_none_iff] at noTool
  obtain ⟨p, asked, h⟩ := Option.bind_eq_some_iff.1 h
  rw [Option.or_eq_some_iff, Option.bind_eq_some_iff, Option.bind_eq_none_iff] at h
  have chosen {m : Marker} := chosen_mustered (m := m) exact asked
  rcases h with ⟨m, closest, atMarker⟩ | ⟨noMarker, atRequester⟩
  · obtain ⟨laid, rfl, rfl⟩ := eq_of_holding? atMarker
    exact .nearestMarker noTool asked (chosen.1 closest) laid
  · obtain ⟨laid, rfl, rfl⟩ := eq_of_holding? atRequester
    refine .requester noTool asked (fun m closest => ?_) laid
    exact holding?_eq_none_iff.1 (noMarker m (chosen.2 closest))

/-- **The start cells** are those of the first source that holds track. -/
theorem startCells?_eq_some_iff (exact : Exact c t (declared ms r seeds) seeds) :
    (mustered c t ms r seeds).startCells? = some (starts, o) ↔
      StartsFrom c t (declared ms r seeds) seeds starts o := by
  refine ⟨startsFrom_of_startCells? exact, fun h => ?_⟩
  cases found : (mustered c t ms r seeds).startCells? with
  | none => exact absurd ((startCells?_eq_none_iff exact).1 found) h.not_nowhere
  | some p =>
    obtain ⟨rfl, rfl⟩ := h.unique (startsFrom_of_startCells? exact found)
    rfl

/-- Two cells at opposite rims of the world.  From one to the other the difference of coordinates
overflows, so that the marker at the western one is taken for a neighbour of whoever asks at the
eastern one; and if the square of the seed radius overflows, not even a marker at the requester's own
cell is near. -/
theorem words_mistake_markers :
    let west : Cell := ⟨-2147483648, 64, 0⟩
    let east : Cell := ⟨2147483647, 64, 0⟩
    let track := (Track.empty.insert west).insert east
    let roll := MarkerRoll.empty.extend ⟨"main"⟩ [⟨⟨"A"⟩, .station, west, none, none⟩]
    let known := roll.markers ⟨"main"⟩
    let c : BuildSettings := { seedRadius := 3037000500 }
    (mustered {} track roll ⟨"main"⟩ { requester := some east }).startCells? =
        some ([west], .nearestMarker ⟨"A"⟩) ∧
      StartsFrom {} track known { requester := some east } [east] .requester ∧
      (mustered c track roll ⟨"main"⟩ { requester := some west }).startCells? =
        some ([west], .requester) ∧
      StartsFrom c track known { requester := some west } [west] (.nearestMarker ⟨"A"⟩) := by
  intro west east track roll known c
  let a : Marker := ⟨⟨"A"⟩, .station, west, none, none⟩
  have only : ∀ k, Marker.chosen? known k.id = some k → k = a :=
    fun k hk => by simpa [known, roll, MarkerRoll.markers_extend, MarkerRoll.markers,
      MarkerRoll.empty] using (Marker.mem_of_chosen? hk).1
  have atEast : track.closest east 4 = [east] := by decide +kernel
  have atWest : track.closest west c.seedRadius = [west] := by decide +kernel
  refine ⟨by decide +kernel, ?_, by decide +kernel, ?_⟩
  · rw [← atEast]
    refine .requester rfl rfl (fun k hk => ?_) (atEast ▸ List.cons_ne_nil _ _)
    have near := hk.near
    rw [only k hk.counts] at near
    exact absurd near (by decide +kernel)
  · have closest : Marker.Closest known west c.seedRadius a := by
      refine ⟨by decide +kernel, by decide +kernel, fun k hk => Or.inr ?_⟩
      rw [only k hk]
      exact ⟨rfl, String.le_refl _⟩
    have started := @StartsFrom.nearestMarker c track known { requester := some west } west a rfl rfl
      closest (by simp [a, atWest])
    rwa [atWest] at started

end Trace

end Signalbox
