import Signalbox.Proofs.Lookup
import Signalbox.Proofs.Stepwise
import Signalbox.Survey.Basic

/-!
# What a sweep comes to

A sweep merges the markers of its region in scan order and anchors the nodes of the roster that
results.  Since a roster files every marker under its own id, the nodes found have distinct ids.

* `Sweep.finished_start`   : the roster and the nodes of a finished sweep;
* `Sweep.outcome_start`    : what a finished sweep finds and reports;
* `Sweep.nodup_ids`        : the nodes found have distinct ids;
* `Survey.finished_sweep`  : a survey that sweeps comes to what the sweep comes to.
-/

set_option autoImplicit false

namespace Signalbox

namespace Roster

variable {r : Roster} {m : Marker} {i : NodeId}

/-- Every marker that counts is filed under its own id. -/
def Filed (r : Roster) : Prop := ∀ (i : NodeId) (m : Marker), r.known[i]? = some m → m.id = i

theorem filed_empty : Filed empty := by
  intro i m h
  simp [empty] at h

theorem id_of_insert (h : Filed r) (m : Marker) :
    ∀ (i : NodeId) (k : Marker), (r.known.insert m.id m)[i]? = some k → k.id = i := by
  intro i k hk
  rw [lookup_insert] at hk
  by_cases hi : m.id = i
  · rw [if_pos hi] at hk
    cases hk
    exact hi
  · rw [if_neg hi] at hk
    exact h i k hk

theorem Filed.merge (h : Filed r) (m : Marker) : Filed (r.merge m) := by
  unfold Roster.merge
  simp only
  split
  · exact h
  · split
    · exact id_of_insert h m
    · split
      · exact h
      · split
        · exact id_of_insert h m
        · exact h

theorem Filed.mergeAll (h : Filed r) (ms : List Marker) : Filed (r.mergeAll ms) := by
  induction ms generalizing r with
  | nil => exact h
  | cons m ms ih => exact ih (h.merge m)

theorem sorted_markers (h : Filed r) : (r.markers.map Marker.id).Pairwise (· < ·) := by
  have keys : r.markers.map Marker.id = r.known.toList.map Prod.fst := by
    rw [markers, List.map_map]
    apply List.map_congr_left
    intro p hp
    exact h p.1 p.2 (Std.ExtTreeMap.mem_toList_iff_getElem?_eq_some.1 hp)
  rw [keys, List.pairwise_map]
  exact Std.ExtTreeMap.ordered_keys_toList.imp fun {p q} lt => Ident.compare_eq_lt.1 lt

theorem nodup_markers (h : Filed r) : (r.markers.map Marker.id).Nodup := by
  rw [List.nodup_iff_pairwise_ne]
  apply (sorted_markers h).imp
  rintro i j lt rfl
  exact String.lt_irrefl _ lt

end Roster

theorem Marker.id_toNode (m : Marker) : m.toNode.id = m.id := by
  unfold Marker.toNode
  cases m.details <;> rfl

theorem Marker.pos_toNode (m : Marker) : m.toNode.pos = m.pos := by
  unfold Marker.toNode
  cases m.details <;> rfl

namespace Sweep

variable {s : Sweep}

/-- The roster and the nodes that a sweep comes to, wherever it stands. -/
def comesTo (s : Sweep) : Roster × List Site :=
  match s.stage with
  | .collecting pages =>
    let roster := s.roster.mergeAll pages.toList
    (roster, roster.markers.map s.anchor)
  | .anchoring pending found => (s.roster, found ++ pending.map s.anchor)

theorem comesTo_of_isDone (h : s.isDone = true) : s.comesTo = (s.roster, s.found) := by
  obtain ⟨track, radius, roster, stage⟩ := s
  cases stage with
  | collecting pages => cases h
  | anchoring pending found =>
    cases pending with
    | nil => simp [comesTo, Sweep.found]
    | cons m pending => cases h

theorem comesTo_advance (s : Sweep) : s.advance.comesTo = s.comesTo := by
  obtain ⟨track, radius, roster, stage⟩ := s
  cases stage with
  | collecting pages =>
    cases hn : pages.next? with
    | none =>
      have empty := Pages.next?_eq_none_iff.1 hn
      simp only [advance, hn, comesTo, empty, Roster.mergeAll, List.foldl_nil, List.nil_append]
      rfl
    | some p =>
      obtain ⟨m, rest⟩ := p
      have front := Pages.toList_of_next? hn
      simp only [advance, hn, comesTo, front, Roster.mergeAll, List.foldl_cons]
      rfl
  | anchoring pending found =>
    cases pending with
    | nil => rfl
    | cons m pending =>
      simp only [advance, comesTo, List.map_cons, List.append_assoc, List.singleton_append]
      rfl

/-- The nodes that a sweep finds in a region: those of the merged markers, in the order of their
ids, each with the track nearest to it. -/
def sites (c : BuildSettings) (t : Host) (ms : MarkerRoll) (r : RegionId) : List Site :=
  (Roster.empty.mergeAll (ms.markers r)).markers.map
    fun m => ⟨m.toNode, t.nearest m.pos c.anchorRadius⟩

/-- **What a finished sweep has merged and found.** -/
theorem finished_start (c : BuildSettings) (t : Host) (ms : MarkerRoll) (r : RegionId) :
    (Stepwise.finished (start c t ms r)).roster = Roster.empty.mergeAll (ms.markers r) ∧
      (Stepwise.finished (start c t ms r)).found = sites c t ms r := by
  have comes : (Stepwise.finished (start c t ms r)).comesTo = (start c t ms r).comesTo :=
    Stepwise.finished_induction (P := fun s => s.comesTo = (start c t ms r).comesTo)
      (fun s _ h => (comesTo_advance s).trans h) rfl
  rw [comesTo_of_isDone (Stepwise.isDone_finished (start c t ms r))] at comes
  obtain ⟨roster, found⟩ := Prod.mk.inj comes
  exact ⟨roster, found⟩

/-- What a sweep reports of a region. -/
def report (c : BuildSettings) (t : Host) (ms : MarkerRoll) (r : RegionId) : SurveyReport :=
  (Roster.empty.mergeAll (ms.markers r)).report
    ((sites c t ms r).countP fun n => n.anchors.isEmpty) 0 none

theorem outcome_start (c : BuildSettings) (t : Host) (ms : MarkerRoll) (r : RegionId) :
    (Stepwise.finished (start c t ms r)).outcome = .nodes (sites c t ms r) (report c t ms r) := by
  obtain ⟨roster, found⟩ := finished_start c t ms r
  rw [outcome, roster, found, report]

theorem ids_sites (c : BuildSettings) (t : Host) (ms : MarkerRoll) (r : RegionId) :
    (sites c t ms r).map Site.id =
      (Roster.empty.mergeAll (ms.markers r)).markers.map Marker.id := by
  rw [sites, List.map_map]
  exact List.map_congr_left fun m _ => m.id_toNode

/-- **The nodes found have distinct ids.** -/
theorem nodup_ids (c : BuildSettings) (t : Host) (ms : MarkerRoll) (r : RegionId) :
    ((sites c t ms r).map Site.id).Nodup := by
  rw [ids_sites]
  exact Roster.nodup_markers (Roster.filed_empty.mergeAll (ms.markers r))

theorem anchors_of_mem_sites {c : BuildSettings} {t : Host} {ms : MarkerRoll} {r : RegionId}
    {n : Site} (h : n ∈ sites c t ms r) : n.anchors = t.nearest n.node.pos c.anchorRadius := by
  obtain ⟨m, -, rfl⟩ := List.mem_map.1 h
  simp only [Marker.pos_toNode]

end Sweep

/-- A survey that sweeps comes to what the sweep comes to. -/
theorem Survey.finished_sweep (s : Sweep) :
    Stepwise.finished (sweep s) = sweep (Stepwise.finished s) :=
  Stepwise.finished_map sweep (fun _ => rfl) (fun _ => rfl) s

end Signalbox
