import Signalbox.Proofs.Survey.Starting

/-!
# What surveys find

A sweep finds every node that the markers of its region declare.  A trace finds those of them that
have an anchor on the track connected to its start cells.  Both are said here about the markers
themselves, so nothing depends on how a survey pages, merges and floods, nor on the schedule that
finishes it.

* `Sweep.finds_declared`  : what a sweep finds and reports;
* `Trace.finds_connected` : where a trace starts, what it floods, and what it finds.
-/

set_option autoImplicit false

namespace Signalbox

/-! ## Sweeps -/

namespace Sweep

variable {c : BuildSettings} {t : Host} {ms : MarkerRoll} {r : RegionId} {n : Site}

theorem mem_sites : n ∈ sites c t ms r ↔
    ∃ m, Marker.chosen? (ms.markers r) m.id = some m ∧
      n = ⟨m.toNode, t.nearest m.pos c.anchorRadius⟩ := by
  rw [sites, List.mem_map]
  exact exists_congr fun m => and_congr Roster.mem_markers_mergeAll eq_comm

/-- **What a sweep finds.**  However it is scheduled, a finished sweep has found, in ascending order
of their ids, one node for each id other than the empty one that a marker of the region bears.  The
node is the one declared by the marker that counts, which is the first one with a destination or,
if none has any, the first one at all, and stands on the track nearest to that marker.  The report
counts all markers, those without an id, and the nodes without an anchor, and lists a conflict for
every marker that differed from the one that counted when it was scanned.  The last conflict of a
node keeps the marker that the node is made of. -/
theorem finds_declared (c : BuildSettings) (t : Host) (ms : MarkerRoll) (r : RegionId)
    {bs : List Allowance} (done : Stepwise.isDone (Stepwise.after bs (start c t ms r)) = true) :
    ∃ found report, (Stepwise.after bs (start c t ms r)).outcome = .nodes found report ∧
      (found.map Site.id).Pairwise (· < ·) ∧
      (∀ i, i ∈ found.map Site.id ↔ i.isEmpty = false ∧ ∃ m ∈ ms.markers r, m.id = i) ∧
      (∀ n ∈ found, ∃ m, Marker.chosen? (ms.markers r) n.id = some m ∧ n.node = m.toNode ∧
        n.anchors = t.nearest m.pos c.anchorRadius) ∧
      report = {
        scanned := (ms.markers r).length
        conflicts := Marker.conflicts (ms.markers r)
        invalid := (ms.markers r).countP fun m => m.id.isEmpty
        unanchored := found.countP fun n => n.anchors.isEmpty
        disconnected := 0
        origin := none } ∧
      ∀ earlier x later, report.conflicts = earlier ++ x :: later → (∀ y ∈ later, y.id ≠ x.id) →
        ∃ n ∈ found, n.id = x.id ∧ n.node = x.kept.toNode := by
  have ends := Stepwise.after_eq_finished done
  obtain ⟨roster, found⟩ := finished_start c t ms r
  obtain ⟨scanned, invalid⟩ := Roster.counts_mergeAll .empty (ms.markers r)
  have conflicts := Roster.conflicts_mergeAll (ms.markers r)
  refine ⟨sites c t ms r, _, ?outcome, ?sorted, fun i => ?ids, fun n hn => ?node, rfl, ?last⟩
  case outcome =>
    rw [ends, outcome, roster, found, Roster.report, scanned, invalid, conflicts]
    simp only [Roster.empty, Nat.zero_add]
  case sorted =>
    rw [ids_sites]
    exact Roster.sorted_markers (Roster.filed_empty.mergeAll _)
  case ids => rw [ids_sites, (Roster.perm_ids_mergeAll _).mem_iff, Marker.mem_ids]
  case node =>
    obtain ⟨m, chosen, rfl⟩ := mem_sites.1 hn
    exact ⟨m, by rwa [Site.id, m.id_toNode], rfl, rfl⟩
  case last =>
    intro earlier x later noted last
    have chosen := Marker.chosen?_of_last_conflict noted last
    have hid := Marker.id_of_chosen? chosen
    refine ⟨_, mem_sites.2 ⟨x.kept, by rw [hid, chosen], rfl⟩, ?_, rfl⟩
    rw [Site.id, Marker.id_toNode, hid]

/-- A station that gets its destination only later, a marker without an id, and a station far away
from the track. -/
theorem finds_declared_retagged :
    let track := Track.empty.insert ⟨0, 64, 0⟩
    let station (name : String) (x : Int32) (destination : Option String) : Marker :=
      ⟨⟨name⟩, .station, ⟨x, 65, 0⟩, destination, none⟩
    let bare := station "A" 0 none
    let west := station "A" 1 (some "west")
    let east := station "A" 0 (some "east")
    let roll := MarkerRoll.empty.extend ⟨"main"⟩
      [bare, station "B" 90 none, west, station "" 0 none, east]
    ∃ found report,
      (Stepwise.after [.units 100] (start {} track roll ⟨"main"⟩)).outcome = .nodes found report ∧
        (report.scanned = 5 ∧ report.invalid = 1) ∧
        report.conflicts = [⟨⟨"A"⟩, west, bare⟩, ⟨⟨"A"⟩, west, east⟩] ∧
        (∃ n ∈ found, n.id = ⟨"A"⟩ ∧ n.node = west.toNode) ∧ ⟨"B"⟩ ∈ found.map Site.id := by
  intro track station bare west east roll
  have done : Stepwise.isDone (Stepwise.after [.units 100] (start {} track roll ⟨"main"⟩)) = true :=
    Stepwise.isDone_step rfl (by decide +kernel)
  obtain ⟨found, report, outcome, -, ids, -, rfl, last⟩ :=
    finds_declared {} track roll ⟨"main"⟩ done
  have conflicts : Marker.conflicts (roll.markers ⟨"main"⟩) =
      [⟨⟨"A"⟩, west, bare⟩] ++ ⟨⟨"A"⟩, west, east⟩ :: [] := by decide +kernel
  have counts : (roll.markers ⟨"main"⟩).length = 5 ∧
      (roll.markers ⟨"main"⟩).countP (fun m => m.id.isEmpty) = 1 := by decide +kernel
  refine ⟨found, _, outcome, counts, conflicts, last _ _ _ conflicts (by simp), ?_⟩
  exact (ids ⟨"B"⟩).2 (by decide +kernel)

end Sweep

/-! ## Traces -/

namespace Marker

variable {h : Host} {t : Track} {radius wider : UInt32} {cells : Std.ExtTreeSet Cell} {n : Site} {m : Marker}

theorem siteAmong?_eq_some_iff : siteAmong? h radius cells m = some n ↔
    n.node = m.toNode ∧
      n.anchors = (h.nearest m.pos radius).filter (fun d => decide (d ∈ cells)) ∧
      n.anchors ≠ [] := by
  obtain ⟨node, anchors⟩ := n
  unfold siteAmong?
  cases (h.nearest m.pos radius).filter (fun d => decide (d ∈ cells)) with
  | nil => simp
  | cons a as =>
    simp only [Option.some.injEq, Site.mk.injEq]
    constructor
    · rintro ⟨rfl, rfl⟩
      exact ⟨rfl, rfl, List.cons_ne_nil _ _⟩
    · rintro ⟨rfl, rfl, -⟩
      exact ⟨rfl, rfl⟩

/-- A marker whose closest track is among some cells has a site on them exactly if there is track
within the radius. -/
theorem isSome_siteAmong?_iff (sharp : t.Sharp m.pos radius) (laid : t.closest m.pos wider ≠ [])
    (flooded : ∀ d ∈ t.closest m.pos wider, d ∈ cells) :
    (siteAmong? t radius cells m).isSome = true ↔
      ∃ d ∈ t, m.pos.exactSq d ≤ radius.toNat * radius.toNat := by
  have all : (t.closest m.pos radius).filter (fun d => decide (d ∈ cells)) =
      t.closest m.pos radius :=
    List.filter_eq_self.2 fun d hd => decide_eq_true (flooded d (Track.closest_subset laid hd))
  have some : (siteAmong? t radius cells m).isSome = true ↔ t.closest m.pos radius ≠ [] := by
    rw [siteAmong?, Track.nearest_host, Track.nearest_eq_closest sharp, all]
    cases t.closest m.pos radius <;> simp
  rw [some, Ne, Track.closest_eq_nil_iff]
  simp only [not_forall, Nat.not_lt, exists_prop]

end Marker

namespace Trace

variable {c : BuildSettings} {h : Host} {t : Track} {ms : MarkerRoll} {r : RegionId} {seeds : Seeds}
  {known : List Marker} {radius : UInt32} {cells : Std.ExtTreeSet Cell} {n : Site} {m : Marker}

/-- The sites on some cells of the markers that count, by the ids of their nodes. -/
def sitesAmong (h : Host) (radius : UInt32) (cells : Std.ExtTreeSet Cell) (known : List Marker) :
    List Site :=
  (Roster.empty.mergeAll known).markers.filterMap (Marker.siteAmong? h radius cells)

theorem sorted_sitesAmong :
    ((sitesAmong h radius cells known).map Site.id).Pairwise (· < ·) :=
  (Roster.sorted_markers (Roster.filed_empty.mergeAll known)).sublist
    (Marker.sublist_ids_siteAmong? _)

theorem mem_sitesAmong : n ∈ sitesAmong h radius cells known ↔
    ∃ m, Marker.chosen? known m.id = some m ∧ Marker.siteAmong? h radius cells m = some n := by
  rw [sitesAmong, List.mem_filterMap]
  exact exists_congr fun m => and_congr_left fun _ => Roster.mem_markers_mergeAll

theorem mem_ids_sitesAmong (chosen : Marker.chosen? known m.id = some m) :
    m.id ∈ (sitesAmong h radius cells known).map Site.id ↔
      (Marker.siteAmong? h radius cells m).isSome = true := by
  rw [List.mem_map, Option.isSome_iff_exists]
  constructor
  · rintro ⟨n, hn, hid⟩
    obtain ⟨k, hk, site⟩ := mem_sitesAmong.1 hn
    have same : k.id = m.id := (Marker.siteAmong?_spec site).1.symm.trans hid
    rw [same, chosen, Option.some.injEq] at hk
    exact ⟨n, hk ▸ site⟩
  · rintro ⟨n, site⟩
    exact ⟨n, mem_sitesAmong.2 ⟨m, chosen, site⟩, (Marker.siteAmong?_spec site).1⟩

/-- The markers without a site are those of the nodes that are not found. -/
theorem countP_siteAmong? (h : Host) (radius : UInt32) (cells : Std.ExtTreeSet Cell)
    (known : List Marker) :
    (Roster.empty.mergeAll known).markers.countP
        (fun m => (Marker.siteAmong? h radius cells m).isNone) =
      (Marker.ids known).countP fun i => decide (i ∉ (sitesAmong h radius cells known).map Site.id) := by
  rw [← (Roster.perm_ids_mergeAll known).countP_eq, List.countP_map]
  refine List.countP_congr fun m hm => ?_
  have found : m.id ∈ (sitesAmong h radius cells known).map Site.id ↔ _ :=
    mem_ids_sitesAmong (Roster.mem_markers_mergeAll.1 hm)
  rw [Function.comp_apply, decide_eq_true_eq, found, Option.isNone_iff_eq_none,
    Bool.not_eq_true, Option.isSome_eq_false_iff, Option.isNone_iff_eq_none]

variable (c t ms r seeds)

/-- **What a trace finds**, where distances are taken as they are.  However it is scheduled, a
finished trace has nowhere to start exactly if none of the three sources holds track.  Otherwise it
starts from the first one that does, and has flooded exactly the cells connected to the start cells.
It has found, in ascending order of their ids, exactly the nodes which have an anchor among those
cells, with those of their anchors only; they are made of the markers that count among those of the
tool and those of the region behind them.  The report counts the other nodes.  The marker that a trace
has started from is kept exactly if there is track within the anchor radius of it. -/
theorem finds_connected {bs : List Allowance}
    (done : Stepwise.isDone (Stepwise.after bs (start c t ms r seeds)) = true)
    (exact : Exact c t (declared ms r seeds) seeds) :
    let s := Stepwise.after bs (start c t ms r seeds)
    let known := declared ms r seeds
    ((∃ report, s.outcome = .noStart report) ↔ Nowhere c t known seeds) ∧
    ∀ found report, s.outcome = .nodes found report →
      ∃ starts o, StartsFrom c t known seeds starts o ∧ report.origin = some o ∧
        (∀ d, d ∈ s.flood.reached ↔ t.Traced starts d) ∧
        (found.map Site.id).Pairwise (· < ·) ∧
        (∀ n, n ∈ found ↔ ∃ m, Marker.chosen? known m.id = some m ∧ n.node = m.toNode ∧
          n.anchors = (t.closest m.pos c.anchorRadius).filter
            (fun d => decide (d ∈ s.flood.reached)) ∧ n.anchors ≠ []) ∧
        report.disconnected = (Marker.ids known).countP
          (fun i => decide (i ∉ found.map Site.id)) ∧
        ∀ m, Marker.chosen? known m.id = some m → o = .nearestMarker m.id →
          (m.id ∈ found.map Site.id ↔
            ∃ d ∈ t, m.pos.exactSq d ≤ c.anchorRadius.toNat * c.anchorRadius.toNat) := by
  intro s known
  have ends : s = Stepwise.finished (start c t ms r seeds) := Stepwise.after_eq_finished done
  cases chosen : (mustered c t ms r seeds).startCells? with
  | none =>
    have stranded := finished_stranded chosen
    rw [← ends] at stranded
    refine ⟨iff_of_true ⟨_, stranded⟩ ((startCells?_eq_none_iff exact).1 chosen),
      fun found report h => ?_⟩
    rw [stranded] at h
    cases h
  | some p =>
    obtain ⟨starts, o⟩ := p
    have first := (startCells?_eq_some_iff exact).1 chosen
    obtain ⟨traced, outcome⟩ := finished_start chosen
    rw [← ends] at traced outcome
    rw [roster_mustered] at outcome
    constructor
    · refine iff_of_false ?_ first.not_nowhere
      rintro ⟨report, h⟩
      rw [outcome] at h
      cases h
    · intro found report h
      rw [outcome] at h
      cases h
      refine ⟨starts, o, first, rfl, traced, sorted_sitesAmong, fun n => ?exact,
        countP_siteAmong? t c.anchorRadius s.flood.reached known, fun m counts origin => ?kept⟩
      case exact =>
        rw [← sitesAmong, mem_sitesAmong]
        refine exists_congr fun m => and_congr_right fun counts => ?_
        rw [Marker.siteAmong?_eq_some_iff, Track.nearest_host,
          Track.nearest_eq_closest (exact.anchored m counts)]
      case kept =>
        rw [← sitesAmong, mem_ids_sitesAmong counts]
        obtain ⟨k, hk, near, laid⟩ := (origin ▸ first).marker
        rw [counts, Option.some.injEq] at hk
        subst hk near
        exact Marker.isSome_siteAmong?_iff (exact.anchored m counts) laid
          fun d hd => (traced d).2 ⟨d, hd, .refl t d⟩

/-- Two stations at one line and a third one at another: whoever asks between the first two is at
equal distance of them, so the trace starts at the one whose id comes first. -/
theorem finds_connected_two_lines :
    let track := [⟨0, 64, 0⟩, ⟨1, 64, 0⟩, ⟨2, 64, 0⟩, ⟨0, 64, 9⟩, ⟨1, 64, 9⟩].foldl
      Track.insert .empty
    let station (name : String) (x z : Int32) : Marker :=
      ⟨⟨name⟩, .station, ⟨x, 65, z⟩, none, none⟩
    let roll := MarkerRoll.empty.extend ⟨"main"⟩ [station "B" 2 0, station "C" 0 9]
    let seeds : Seeds := { toolMarkers := [station "A" 0 0], requester := some ⟨1, 66, 0⟩ }
    let s := Stepwise.after [.units 100] (start {} track roll ⟨"main"⟩ seeds)
    ∃ found report, s.outcome = .nodes found report ∧
      report.origin = some (.nearestMarker ⟨"A"⟩) ∧
      (∀ d, d ∈ s.flood.reached ↔ track.Traced [⟨0, 64, 0⟩] d) ∧ ⟨"A"⟩ ∈ found.map Site.id := by
  intro track station roll seeds s
  have done : Stepwise.isDone s = true := Stepwise.isDone_step rfl (by decide +kernel)
  have fits : ∀ k ∈ declared roll ⟨"main"⟩ seeds, k.pos.Fits ⟨1, 66, 0⟩ := by decide +kernel
  have sharp (p : Cell) (radius : UInt32) (small : radius.toNat ≤ 4) : track.Sharp p radius :=
    Or.inl (Nat.lt_of_le_of_lt (Nat.mul_le_mul small small) (by decide))
  have exact : Exact {} track (declared roll ⟨"main"⟩ seeds) seeds := by
    refine ⟨fun p asked => ?_, fun k _ => sharp _ _ (by decide)⟩
    cases asked
    exact ⟨by decide, sharp _ _ (by decide),
      fun k hk => ⟨fits k (Marker.mem_of_chosen? hk).1, sharp _ _ (by decide)⟩⟩
  obtain ⟨stranded, finds⟩ := finds_connected {} track roll ⟨"main"⟩ seeds done exact
  have first : StartsFrom {} track (declared roll ⟨"main"⟩ seeds) seeds [⟨0, 64, 0⟩]
      (.nearestMarker ⟨"A"⟩) := (startCells?_eq_some_iff exact).1 (by decide +kernel)
  cases outcome : s.outcome with
  | noStart report => exact absurd (stranded.1 ⟨report, outcome⟩) first.not_nowhere
  | nodes found report =>
    obtain ⟨starts, o, started, origin, traced, -, -, -, kept⟩ := finds found report outcome
    obtain ⟨rfl, rfl⟩ := started.unique first
    refine ⟨found, report, rfl, origin, traced, ?_⟩
    have near : (⟨0, 64, 0⟩ : Cell) ∈ track ∧ (⟨0, 65, 0⟩ : Cell).exactSq ⟨0, 64, 0⟩ ≤ 2 * 2 := by
      decide +kernel
    exact (kept (station "A" 0 0) (by decide +kernel) rfl).2 ⟨_, near⟩

/-- Two cells above each other, so far from the requester that rounding blurs which of them is closer:
the trace starts from both, although only the lower one is closest, and finds the node at the upper
one, to which the lower one is not connected. -/
theorem rounding_blurs_start_cells :
    let lower : Cell := ⟨134217729, 0, 0⟩
    let upper : Cell := ⟨134217729, 1, 0⟩
    let track := (Track.empty.insert lower).insert upper
    let c : BuildSettings := { seedRadius := 134217730 }
    let m : Marker := ⟨⟨"B"⟩, .station, ⟨134217731, 1, 0⟩, none, none⟩
    let roll := MarkerRoll.empty.extend ⟨"main"⟩ [m]
    let seeds : Seeds := { requester := some ⟨0, 0, 0⟩ }
    let s := Stepwise.after [.units 100] (start c track roll ⟨"main"⟩ seeds)
    c.check = .ok () ∧ Stepwise.isDone s = true ∧
      StartsFrom c track (declared roll ⟨"main"⟩ seeds) seeds [lower] .requester ∧
      s.outcome = .nodes [⟨m.toNode, [upper]⟩] ⟨1, [], 0, 0, 0, some .requester⟩ ∧
      upper ∈ s.flood.reached ∧ ¬ track.Traced [lower] upper := by
  intro lower upper track c m roll seeds s
  have alone : track.neighbors lower = [] := by decide +kernel
  have closest : track.closest ⟨0, 0, 0⟩ c.seedRadius = [lower] := by decide +kernel
  have started : StartsFrom c track (declared roll ⟨"main"⟩ seeds) seeds [lower] .requester := by
    rw [← closest]
    refine .requester (by decide +kernel) rfl (fun k hk => ?_) (by rw [closest]; simp)
    have beyond : ∀ x ∈ declared roll ⟨"main"⟩ seeds,
        ¬ x.pos.exactSq ⟨0, 0, 0⟩ ≤ c.seedRadius.toNat * c.seedRadius.toNat := by decide +kernel
    exact absurd hk.near (beyond k (Marker.mem_of_chosen? hk.counts).1)
  refine ⟨by decide +kernel, Stepwise.isDone_step rfl (by decide +kernel), started,
    by decide +kernel, by decide +kernel, ?_⟩
  rintro ⟨d, hd, n, walk⟩
  rw [List.mem_singleton.1 hd] at walk
  exact absurd (walk.eq_of_alone alone) (by decide)

end Trace

end Signalbox
