import Mathlib.Data.List.Basic
import Signalbox.Proofs.Survey.Sweep
import Signalbox.Proofs.Track.Flood

/-!
# What a trace comes to

A trace merges its markers, chooses the start cells, floods the track from them and keeps the nodes
with an anchor on the flooded track.  Each stage is run to its end by a lemma of its own, from the
form in which the stage before leaves the trace.

* `Trace.finished_collecting`, `Trace.finished_flooding`, `Trace.finished_filtering` : what the
  stages come to;
* `Trace.finished_start`  : the flooded track and the nodes of a finished trace;
* `Trace.finished_stranded` : the trace that has nowhere to start;
* `Trace.outcome_cases`   : how every trace ends;
* `Survey.finished_trace` : a survey that traces comes to what the trace comes to;
* `Trace.outcome_around`  : how the nodes of a trace are found among those of a sweep.
-/

set_option autoImplicit false

namespace Signalbox

namespace Marker

variable {h : Host} {radius : UInt32} {cells : Std.ExtTreeSet Cell}

/-- The node that a marker declares, on those of the track cells near it that are among some cells,
if there are any. -/
def siteAmong? (h : Host) (radius : UInt32) (cells : Std.ExtTreeSet Cell) (m : Marker) :
    Option Site :=
  match (h.nearest m.pos radius).filter fun c => decide (c ∈ cells) with
  | [] => none
  | a :: as => some ⟨m.toNode, a :: as⟩

theorem siteAmong?_spec {m : Marker} {n : Site} (site : siteAmong? h radius cells m = some n) :
    n.id = m.id ∧ ∀ a ∈ n.anchors, a ∈ h.laid := by
  unfold siteAmong? at site
  split at site
  · cases site
  · rename_i a as near
    cases site
    refine ⟨m.id_toNode, ?_⟩
    intro b hb
    rw [← near] at hb
    exact h.nearest_laid _ _ b (List.mem_filter.1 hb).1

theorem sublist_ids_siteAmong? (ms : List Marker) :
    ((ms.filterMap (siteAmong? h radius cells)).map Site.id).Sublist (ms.map id) := by
  induction ms with
  | nil => exact List.Sublist.refl _
  | cons m ms ih =>
    rw [List.filterMap_cons, List.map_cons]
    cases hs : siteAmong? h radius cells m with
    | none => exact ih.cons _
    | some n =>
      rw [List.map_cons, (siteAmong?_spec hs).1]
      exact ih.cons_cons _

end Marker

namespace Trace

variable {s : Trace} {m : Marker} {starts : List Cell} {o : StartOrigin}

/-- The site of a marker on the flooded track. -/
def site? (s : Trace) : Marker → Option Site :=
  Marker.siteAmong? s.host s.anchorRadius s.flood.reached

/-! ## Stages -/

theorem finished_eq {u : Trace} (h : s.isDone = false) (ha : s.advance = u) :
    Stepwise.finished s = Stepwise.finished u := by
  rw [← ha]
  exact (Stepwise.finished_advance h).symm

theorem finished_collecting {pages : Pages} (h : s.stage = .collecting pages) :
    Stepwise.finished s =
      Stepwise.finished { s with roster := s.roster.mergeAll pages.toList, stage := .seeding } := by
  have busy : s.isDone = false := by simp [isDone, h]
  induction hl : pages.toList generalizing s pages with
  | nil =>
    have last : pages.next? = none := Pages.next?_eq_none_iff.2 hl
    exact finished_eq busy (by simp [advance, h, last, Roster.mergeAll])
  | cons m ms ih =>
    cases hn : pages.next? with
    | none =>
      rw [Pages.next?_eq_none_iff.1 hn] at hl
      cases hl
    | some p =>
      obtain ⟨k, rest⟩ := p
      rw [Pages.toList_of_next? hn] at hl
      cases hl
      have step : s.advance = { s with roster := s.roster.merge m, stage := .collecting rest } := by
        simp [advance, h, hn]
      rw [finished_eq busy step, ih (s := { s with roster := _, stage := _ }) rfl rfl rfl]
      rfl

/-- Flooding reaches what is connected to the start cells. -/
theorem finished_flooding (h : s.stage = .flooding) (spread : s.flood.Spread s.host.laid starts) :
    ∃ flood : Flood, (∀ d, d ∈ flood.reached ↔ s.host.laid.Traced starts d) ∧
      Stepwise.finished s =
        Stepwise.finished { s with flood, stage := .filtering s.roster.markers } := by
  have busy : s.isDone = false := by simp [isDone, h]
  -- by induction on the number of cells that are waiting or not reached
  induction hl : s.flood.left s.host.laid using Nat.strongRecOn generalizing s with
  | ind n ih =>
    cases ha : s.flood.advance? s.host.laid with
    | none =>
      exact ⟨s.flood, fun d => spread.mem_reached_iff ha,
        finished_eq busy (by simp [advance, h, ha])⟩
    | some flood =>
      have less : flood.left s.host.laid < n := hl ▸ Flood.left_advance? ha
      obtain ⟨last, traced, finished⟩ :=
        ih _ less (s := { s with flood }) h (spread.advance? ha) (by simp [isDone, h]) rfl
      exact ⟨last, traced, (finished_eq busy (by simp [advance, h, ha])).trans finished⟩

/-- Sorting keeps the site of a marker, or counts its node as left out if there is none. -/
theorem sort_eq (s : Trace) (m : Marker) :
    s.sort m = { s with
      kept := s.kept ++ (s.site? m).toList
      leftOut := s.leftOut + if (s.site? m).isNone then 1 else 0 } := by
  unfold sort site? Marker.siteAmong? anchors
  cases (s.host.nearest m.pos s.anchorRadius).filter _ with
  | nil => simp
  | cons a as => rfl

/-- Filtering keeps the sites that the markers have on the flooded track, and counts the others. -/
theorem finished_filtering {pending : List Marker} (h : s.stage = .filtering pending) :
    Stepwise.finished s = { s with
      kept := s.kept ++ pending.filterMap s.site?
      leftOut := s.leftOut + pending.countP fun m => (s.site? m).isNone
      stage := .settled } := by
  have busy : s.isDone = false := by simp [isDone, h]
  induction pending generalizing s with
  | nil =>
    rw [finished_eq (u := { s with stage := .settled }) busy (by simp [advance, h]),
      Stepwise.finished_of_done rfl, List.filterMap_nil, List.append_nil]
    rfl
  | cons m pending ih =>
    have step : s.advance = { s with
        kept := s.kept ++ (s.site? m).toList
        leftOut := s.leftOut + if (s.site? m).isNone then 1 else 0
        stage := .filtering pending } := by
      simp [advance, h, sort_eq]
    have more : (s.site? m).toList ++ pending.filterMap s.site? =
        (m :: pending).filterMap s.site? := by
      rw [List.filterMap_cons]
      cases s.site? m <;> rfl
    rw [finished_eq busy step, ih (s := { s with kept := _, leftOut := _, stage := _ }) rfl rfl,
      ← more, ← List.append_assoc, List.countP_cons, Nat.add_comm (pending.countP _), ← Nat.add_assoc]
    rfl

/-! ## The outcome -/

variable (c : BuildSettings) (t : Host) (ms : MarkerRoll) (r : RegionId) (seeds : Seeds)

/-- The trace with all its markers merged, about to choose the start cells. -/
def mustered : Trace :=
  { start c t ms r seeds with
    roster := (Roster.empty.mergeAll seeds.toolMarkers).mergeAll (ms.markers r)
    stage := .seeding }

variable {c t ms r seeds}

/-- **What a finished trace has flooded, found and left out.**  The flooded cells are those connected
to the start cells, and the nodes found are those with an anchor among them. -/
theorem finished_start (h : (mustered c t ms r seeds).startCells? = some (starts, o)) :
    let s := Stepwise.finished (start c t ms r seeds)
    let roster := (mustered c t ms r seeds).roster
    let site? := Marker.siteAmong? t c.anchorRadius s.flood.reached
    (∀ d, d ∈ s.flood.reached ↔ t.laid.Traced starts d) ∧
      s.outcome = .nodes (roster.markers.filterMap site?)
        (roster.report 0 (roster.markers.countP fun m => (site? m).isNone) (some o)) := by
  let all := mustered c t ms r seeds
  let sown : Trace :=
    { all with flood := all.flood.enterAll starts, origin := some o, stage := .flooding }
  have collected : Stepwise.finished (start c t ms r seeds) = Stepwise.finished all :=
    finished_collecting (s := start c t ms r seeds) rfl
  have seeded : all.advance = sown := by
    have stage : all.stage = .seeding := rfl
    rw [advance, stage]
    simp only [all, h, sown]
  obtain ⟨flood, traced, flooded⟩ :=
    finished_flooding (s := sown) rfl (Flood.Spread.enterAll_empty t.laid starts)
  have filtered := finished_filtering
    (s := { sown with flood, stage := .filtering sown.roster.markers }) rfl
  intro s roster site?
  have ends : s = _ := (collected.trans (finished_eq rfl seeded)).trans (flooded.trans filtered)
  refine ⟨fun d => ?_, ?_⟩
  · rw [ends]
    exact traced d
  · simp only [site?, ends]
    show SurveyOutcome.nodes _ (Roster.report _ 0 (0 + _) _) = _
    rw [Nat.zero_add]
    rfl

/-- **A trace that has nowhere to start** is stranded once its markers are merged. -/
theorem finished_stranded (h : (mustered c t ms r seeds).startCells? = none) :
    (Stepwise.finished (start c t ms r seeds)).outcome =
      .noStart ((mustered c t ms r seeds).roster.report 0 0 none) := by
  let all := mustered c t ms r seeds
  have collected : Stepwise.finished (start c t ms r seeds) = Stepwise.finished all :=
    finished_collecting (s := start c t ms r seeds) rfl
  have seeded : all.advance = { all with stage := .stranded } := by
    have stage : all.stage = .seeding := rfl
    rw [advance, stage]
    simp only [all, h]
  have stranded : Stepwise.finished ({ all with stage := .stranded } : Trace) =
      { all with stage := .stranded } := Stepwise.finished_of_done rfl
  rw [collected, finished_eq rfl seeded, stranded]
  rfl

/-- **How a trace ends**: stranded if there is no start cell, and otherwise with nodes of distinct
ids on laid track, wherever its markers come from. -/
theorem outcome_cases (c : BuildSettings) (t : Host) (ms : MarkerRoll) (r : RegionId)
    (seeds : Seeds) :
    ((mustered c t ms r seeds).startCells? = none ∧
      ∃ report, (Stepwise.finished (start c t ms r seeds)).outcome = .noStart report) ∨
    ((mustered c t ms r seeds).startCells? ≠ none ∧
      ∃ found report, (Stepwise.finished (start c t ms r seeds)).outcome = .nodes found report ∧
        (found.map Site.id).Nodup ∧ ∀ n ∈ found, ∀ a ∈ n.anchors, a ∈ t.laid) := by
  cases chosen : (mustered c t ms r seeds).startCells? with
  | none => exact Or.inl ⟨rfl, _, finished_stranded chosen⟩
  | some begun =>
    obtain ⟨starts, o⟩ := begun
    obtain ⟨-, ends⟩ := finished_start chosen
    have merged : (mustered c t ms r seeds).roster.Filed :=
      (Roster.filed_empty.mergeAll seeds.toolMarkers).mergeAll (ms.markers r)
    refine Or.inr ⟨by simp, _, _, ends, ?_, ?_⟩
    · exact (Roster.nodup_markers merged).sublist (Marker.sublist_ids_siteAmong? _)
    · intro n hn
      obtain ⟨m, -, hm⟩ := List.mem_filterMap.1 hn
      exact (Marker.siteAmong?_spec hm).2

end Trace

/-- A survey that traces comes to what the trace comes to. -/
theorem Survey.finished_trace (s : Trace) :
    Stepwise.finished (trace s) = trace (Stepwise.finished s) :=
  Stepwise.finished_map trace (fun _ => rfl) (fun _ => rfl) s

/-! ## Sites on flooded track -/

/-- Whether a site stands on one of some cells. -/
def Site.standsOn (cells : Std.ExtTreeSet Cell) (m : Site) : Bool :=
  m.anchors.any fun a => decide (a ∈ cells)

/-- The cells hold either all or none of some others, so that nothing straddles their edge. -/
def Undivided (cells : Std.ExtTreeSet Cell) (as : List Cell) : Prop :=
  (∀ a ∈ as, a ∈ cells) ∨ ∀ a ∈ as, a ∉ cells

namespace Site

variable {cells : Std.ExtTreeSet Cell} {m : Site} {a : Cell}

theorem standsOn_iff : m.standsOn cells = true ↔ ∃ a ∈ m.anchors, a ∈ cells := by
  simp [standsOn]

/-- Where nothing straddles the edge, every anchor tells whether the site stands on the cells. -/
theorem standsOn_iff_mem (whole : Undivided cells m.anchors) (ha : a ∈ m.anchors) :
    m.standsOn cells = true ↔ a ∈ cells := by
  rw [standsOn_iff]
  rcases whole with all | none
  · exact ⟨fun _ => all a ha, fun h => ⟨a, ha, h⟩⟩
  · exact ⟨fun ⟨b, hb, h⟩ => absurd h (none b hb), fun h => ⟨a, ha, h⟩⟩

theorem standsOn_iff_all (whole : Undivided cells m.anchors) :
    m.standsOn cells = true ↔ m.anchors ≠ [] ∧ ∀ a ∈ m.anchors, a ∈ cells := by
  constructor
  · intro h
    obtain ⟨a, ha, -⟩ := standsOn_iff.1 h
    exact ⟨List.ne_nil_of_mem ha, fun b hb => (standsOn_iff_mem whole hb).1 h⟩
  · rintro ⟨some, all⟩
    obtain ⟨a, ha⟩ := List.exists_mem_of_ne_nil _ some
    exact standsOn_iff.2 ⟨a, ha, all a ha⟩

end Site

namespace Marker

variable {h : Host} {radius : UInt32} {cells : Std.ExtTreeSet Cell}

/-- Where nothing straddles the edge, the site of a marker among some cells is its site, if that
stands on them. -/
theorem siteAmong?_eq {m : Marker} (whole : Undivided cells (h.nearest m.pos radius)) :
    siteAmong? h radius cells m =
      Option.guard (Site.standsOn cells) ⟨m.toNode, h.nearest m.pos radius⟩ := by
  unfold siteAmong? Option.guard Site.standsOn
  generalize h.nearest m.pos radius = near at whole
  rcases whole with all | none
  · rw [List.filter_eq_self.2 fun a ha => decide_eq_true (all a ha)]
    cases near with
    | nil => rfl
    | cons a as => simp [all a (List.mem_cons_self ..)]
  · rw [List.filter_eq_nil_iff.2 fun a ha => by simpa using none a ha]
    simpa using none

theorem filterMap_siteAmong? {ms : List Marker}
    (whole : ∀ m ∈ ms, Undivided cells (h.nearest m.pos radius)) :
    ms.filterMap (siteAmong? h radius cells) =
      (ms.map fun m => (⟨m.toNode, h.nearest m.pos radius⟩ : Site)).filter (Site.standsOn cells) := by
  rw [← List.filterMap_eq_filter, List.filterMap_map]
  exact List.filterMap_congr fun m hm => siteAmong?_eq (whole m hm)

end Marker

namespace Trace

variable {c : BuildSettings} {t : Host} {ms : MarkerRoll} {r : RegionId} {seeds : Seeds}
  {starts : List Cell} {o : StartOrigin}

/-- The cells that a trace of a region floods. -/
def flooded (c : BuildSettings) (t : Host) (ms : MarkerRoll) (r : RegionId) (seeds : Seeds) :
    Std.ExtTreeSet Cell :=
  (Stepwise.finished (start c t ms r seeds)).flood.reached

/-- **The sites that a trace finds** are those of a sweep that stand on the flooded track, if no
marker comes from a tool and no node straddles the edge of that track. -/
theorem outcome_around (bare : seeds.toolMarkers = [])
    (chosen : (mustered c t ms r seeds).startCells? = some (starts, o))
    (whole : ∀ m ∈ (Roster.empty.mergeAll (ms.markers r)).markers,
      Undivided (flooded c t ms r seeds) (t.nearest m.pos c.anchorRadius)) :
    ∃ report, (Stepwise.finished (Survey.start c t ms r (.around seeds))).outcome =
      .nodes ((Sweep.sites c t ms r).filter (Site.standsOn (flooded c t ms r seeds))) report := by
  have surveyed : Stepwise.finished (Survey.start c t ms r (.around seeds)) =
      .trace (Stepwise.finished (start c t ms r seeds)) := Survey.finished_trace _
  have roster : (mustered c t ms r seeds).roster = Roster.empty.mergeAll (ms.markers r) := by
    simp only [mustered, bare]
    rfl
  obtain ⟨-, outcome⟩ := finished_start chosen
  rw [roster, ← flooded, Marker.filterMap_siteAmong? whole] at outcome
  exact ⟨_, by rw [surveyed, Survey.outcome, outcome]; rfl⟩

end Trace

end Signalbox
