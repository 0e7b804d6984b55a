import Signalbox.Proofs.Survey.Starting
import Signalbox.Proofs.Track.Pairs

/-!
# How much work a survey takes

A sweep takes a unit for every marker of its region, one to close the roster, and one for every node.
A trace takes one more to choose its start cells, which is its last one if there are none; otherwise
it takes a unit for every cell that it floods, one to find that no cell waits, one for every node,
and one to close.

* `Sweep.cost_start`, `Trace.cost_start`, `Trace.cost_start_of_nowhere` : the units of a survey;
* `Trace.cost_flooding` : a flood takes a unit for every cell.
-/

set_option autoImplicit false

namespace Signalbox

theorem Roster.size_mergeAll (ms : List Marker) :
    (Roster.empty.mergeAll ms).size = (Marker.ids ms).length := by
  rw [← Roster.length_markers, ← (Roster.perm_ids_mergeAll ms).length_eq, List.length_map]

/-! ## Sweeps -/

namespace Sweep

/-- The units that a sweep has left: one for every marker to merge, one to close the roster, and one
for every node to anchor. -/
def effort (s : Sweep) : Nat :=
  match s.stage with
  | .collecting pages => pages.left + 1 + (s.roster.mergeAll pages.toList).size
  | .anchoring pending _ => pending.length

theorem effort_advance (s : Sweep) (h : s.isDone = false) : s.effort = s.advance.effort + 1 := by
  obtain ⟨track, radius, roster, stage⟩ := s
  cases stage with
  | collecting pages =>
    cases hn : pages.next? with
    | none =>
      have empty := Pages.next?_eq_none_iff.1 hn
      simp [effort, advance, hn, empty, Pages.left, Roster.mergeAll]
      omega
    | some p =>
      obtain ⟨m, rest⟩ := p
      have front := Pages.toList_of_next? hn
      have left := Pages.left_of_next? hn
      simp only [effort, advance, hn, front, left, Roster.mergeAll, List.foldl_cons]
      omega
  | anchoring pending found =>
    cases pending with
    | nil => cases h
    | cons m pending => rfl

theorem effort_of_isDone (s : Sweep) (h : s.isDone = true) : s.effort = 0 := by
  obtain ⟨track, radius, roster, stage⟩ := s
  cases stage with
  | collecting pages => cases h
  | anchoring pending found =>
    cases pending with
    | nil => rfl
    | cons m pending => cases h

/-- **The units of a sweep.** -/
theorem cost_start (c : BuildSettings) (t : Host) (ms : MarkerRoll) (r : RegionId) :
    Stepwise.cost (start c t ms r) =
      (ms.markers r).length + 1 + (Marker.ids (ms.markers r)).length := by
  have count : Stepwise.cost (start c t ms r) = (start c t ms r).effort :=
    Stepwise.cost_eq_of_count (P := fun _ => True) (fun _ _ _ => trivial)
      (fun s hs _ => effort_of_isDone s hs) (fun s hs _ => effort_advance s hs) trivial
  rw [count]
  simp only [effort, start, Pages.left, Pages.toList_ofTable, Roster.size_mergeAll]

end Sweep

/-! ## Floods -/

namespace Flood

variable {f g : Flood} {t : Track} {cs : List Cell} {c : Cell}

theorem size_enter (f : Flood) (c : Cell) :
    (f.enter c).reached.size + f.queue.length = f.reached.size + (f.enter c).queue.length := by
  unfold enter
  split
  · rfl
  · rename_i fresh
    rw [Std.ExtTreeSet.size_insert, if_neg (by simpa using fresh), Queue.length_push]
    omega

theorem size_enterAll (f : Flood) (cs : List Cell) :
    (f.enterAll cs).reached.size + f.queue.length =
      f.reached.size + (f.enterAll cs).queue.length := by
  induction cs generalizing f with
  | nil => rfl
  | cons c cs ih =>
    have first := f.size_enter c
    have rest := ih (f.enter c)
    rw [enterAll, List.foldl_cons, ← enterAll]
    omega

theorem size_advance? (h : f.advance? t = some g) :
    g.reached.size + f.queue.length = f.reached.size + g.queue.length + 1 := by
  unfold advance? at h
  split at h
  · cases h
  · rename_i c queue hp
    cases h
    have entered := size_enterAll { f with queue } (t.neighbors c)
    have front := Queue.length_of_pop? hp
    simp only at entered
    omega

end Flood

/-! ## Traces -/

namespace Trace

variable {s : Trace} {starts : List Cell} {o : StartOrigin}

theorem cost_eq {u : Trace} (h : s.isDone = false) (ha : s.advance = u) :
    Stepwise.cost s = Stepwise.cost u + 1 := by
  rw [← ha]
  exact Stepwise.cost_advance h

/-- Collecting takes a unit for every marker, and one to find that there are no more. -/
theorem cost_collecting {pages : Pages} (h : s.stage = .collecting pages) :
    Stepwise.cost s = pages.left + 1 +
      Stepwise.cost { s with roster := s.roster.mergeAll pages.toList, stage := .seeding } := by
  have busy : s.isDone = false := by simp [isDone, h]
  rw [Pages.left]
  induction hl : pages.toList generalizing s pages with
  | nil =>
    have last : pages.next? = none := Pages.next?_eq_none_iff.2 hl
    rw [cost_eq (u := { s with stage := .seeding }) busy (by simp [advance, h, last]),
      List.length_nil]
    simp only [Roster.mergeAll, List.foldl_nil]
    omega
  | cons m ms ih =>
    cases hn : pages.next? with
    | none =>
      rw [Pages.next?_eq_none_iff.1 hn] at hl
      cases hl
    | some p =>
      obtain ⟨k, rest⟩ := p
      rw [Pages.toList_of_next? hn] at hl
      cases hl
      have step : s.advance = { s with roster := s.roster.merge m, stage := .collecting rest } := by
        simp [advance, h, hn]
      rw [cost_eq busy step, ih (s := { s with roster := _, stage := _ }) rfl rfl rfl,
        List.length_cons]
      simp only [Roster.mergeAll, List.foldl_cons]
      omega

theorem cost_filtering {pending : List Marker} (h : s.stage = .filtering pending) :
    Stepwise.cost s = pending.length + 1 := by
  have busy : s.isDone = false := by simp [isDone, h]
  induction pending generalizing s with
  | nil =>
    rw [cost_eq (u := { s with stage := .settled }) busy (by simp [advance, h]),
      Stepwise.cost_of_done rfl, List.length_nil]
  | cons m pending ih =>
    have step : s.advance = { s.sort m with stage := .filtering pending } := by
      simp [advance, h]
    rw [cost_eq busy step, ih (s := { s.sort m with stage := _ }) rfl rfl, List.length_cons]

/-- **A flood takes a unit for every cell** that waits or is still to be reached, and one to find that
no cell waits. -/
theorem cost_flooding (h : s.stage = .flooding) (spread : s.flood.Spread s.host.laid starts) :
    Stepwise.cost s + s.flood.reached.size =
      s.flood.queue.length + {d | s.host.laid.Traced starts d}.ncard + s.roster.size + 2 := by
  have busy : s.isDone = false := by simp [isDone, h]
  -- by induction on the number of cells that are waiting or not reached
  induction hl : s.flood.left s.host.laid using Nat.strongRecOn generalizing s with
  | ind n ih =>
    cases ha : s.flood.advance? s.host.laid with
    | none =>
      have traced : s.flood.reached.size = {d | s.host.laid.Traced starts d}.ncard :=
        size_eq_ncard fun d => spread.mem_reached_iff ha
      have still : s.flood.queue.length = 0 := by
        unfold Flood.advance? at ha
        split at ha
        · rename_i hp
          rw [← Queue.length_toList, Queue.pop?_eq_none_iff.1 hp, List.length_nil]
        · cases ha
      rw [cost_eq (u := { s with stage := .filtering s.roster.markers }) busy
        (by simp [advance, h, ha]), cost_filtering rfl, Roster.length_markers, traced]
      omega
    | some flood =>
      have less : flood.left s.host.laid < n := hl ▸ Flood.left_advance? ha
      have rest := ih _ less (s := { s with flood }) h (spread.advance? ha) (by simp [isDone, h]) rfl
      have sizes := Flood.size_advance? ha
      have front : 0 < s.flood.queue.length := by
        unfold Flood.advance? at ha
        split at ha
        · cases ha
        · rename_i hp
          rw [Queue.length_of_pop? hp]
          omega
      simp only at rest
      rw [cost_eq (u := { s with flood }) busy (by simp [advance, h, ha])]
      omega

variable {c : BuildSettings} {t : Host} {ms : MarkerRoll} {r : RegionId} {seeds : Seeds}

theorem cost_start_eq (c : BuildSettings) (t : Host) (ms : MarkerRoll) (r : RegionId)
    (seeds : Seeds) : Stepwise.cost (start c t ms r seeds) =
      (ms.markers r).length + 1 + Stepwise.cost (mustered c t ms r seeds) := by
  rw [cost_collecting (s := start c t ms r seeds) rfl, Pages.left, Pages.toList_ofTable]
  rfl

/-- **The units of a trace that starts somewhere.** -/
theorem cost_start (chosen : (mustered c t ms r seeds).startCells? = some (starts, o)) :
    Stepwise.cost (start c t ms r seeds) = (ms.markers r).length + 4 +
      {d | t.laid.Traced starts d}.ncard + (Marker.ids (declared ms r seeds)).length := by
  let all := mustered c t ms r seeds
  let sown : Trace :=
    { all with flood := all.flood.enterAll starts, origin := some o, stage := .flooding }
  have seeded : all.advance = sown := by
    have stage : all.stage = .seeding := rfl
    rw [advance, stage]
    simp only [all, chosen, sown]
  have flooded := cost_flooding (s := sown) rfl (Flood.Spread.enterAll_empty t.laid starts)
  have waiting : sown.flood.reached.size + 0 = 0 + sown.flood.queue.length :=
    ({} : Flood).size_enterAll starts
  have known : sown.roster.size = (Marker.ids (declared ms r seeds)).length := by
    show (mustered c t ms r seeds).roster.size = _
    rw [roster_mustered, Roster.size_mergeAll]
  have track : sown.host.laid = t.laid := rfl
  rw [cost_start_eq, cost_eq (u := sown) rfl seeded]
  rw [known, track] at flooded
  omega

/-- **The units of a trace that has nowhere to start.** -/
theorem cost_start_of_nowhere (nowhere : (mustered c t ms r seeds).startCells? = none) :
    Stepwise.cost (start c t ms r seeds) = (ms.markers r).length + 2 := by
  let all := mustered c t ms r seeds
  have seeded : all.advance = { all with stage := .stranded } := by
    have stage : all.stage = .seeding := rfl
    rw [advance, stage]
    simp only [all, nowhere]
  rw [cost_start_eq, cost_eq rfl seeded, Stepwise.cost_of_done rfl]

end Trace

end Signalbox
