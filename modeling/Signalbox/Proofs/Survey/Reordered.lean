import Signalbox.Proofs.Survey.Effort

/-!
# Markers in another order

How the markers of different nodes are mixed is an accident of where they were placed.  A sweep does
not depend on it: what counts for a node, and which of its markers conflict, is settled by the
markers of that node alone (`Marker.chosen?_own`, `Marker.conflicts_own`), and everything else that
is reported is a count.  Within one node the order does matter, since the first marker counts.

* `Marker.Reordered`      : the same markers of every node, mixed in another way;
* `Sweep.sites_reordered` : a sweep finds the same nodes on the same anchors;
* `Sweep.report_reordered`: and reports the same, but for the mixture of the conflicts;
* `Sweep.cost_reordered`  : in the same number of units.
-/

set_option autoImplicit false

namespace Signalbox

/-- Lists that agree on the entries of every key hold the same entries. -/
theorem perm_of_filter_eq {α κ : Type} [DecidableEq α] [DecidableEq κ] {key : α → κ}
    {l k : List α}
    (same : ∀ i, l.filter (fun a => key a = i) = k.filter fun a => key a = i) : l.Perm k := by
  rw [List.perm_iff_count]
  intro a
  have own (m : List α) : (m.filter fun b => key b = key a).count a = m.count a :=
    List.count_filter (by simp)
  rw [← own l, same, own k]

namespace Marker

variable {ms ks : List Marker} {i : NodeId}

/-- Two lists hold the same markers of every node in the same order, the markers without an id
included; markers of different nodes may be mixed in any way. -/
def Reordered (ms ks : List Marker) : Prop :=
  ∀ i : NodeId, ms.filter (fun m => m.id = i) = ks.filter fun m => m.id = i

/-- Only nodes that some marker names need to be looked at. -/
theorem reordered_iff : Reordered ms ks ↔
    ∀ m ∈ ms ++ ks, (ms.filter fun k => k.id = m.id) = ks.filter fun k => k.id = m.id := by
  refine ⟨fun h m _ => h m.id, fun h i => ?_⟩
  by_cases named : ∃ m ∈ ms ++ ks, m.id = i
  · obtain ⟨m, hm, rfl⟩ := named
    exact h m hm
  · have nobody : ∀ m ∈ ms ++ ks, ¬decide (m.id = i) = true := fun m hm he =>
      named ⟨m, hm, of_decide_eq_true he⟩
    rw [List.filter_eq_nil_iff.2 fun m hm => nobody m (List.mem_append_left ks hm),
      List.filter_eq_nil_iff.2 fun m hm => nobody m (List.mem_append_right ms hm)]

instance : Decidable (Reordered ms ks) := decidable_of_iff _ reordered_iff.symm

/-! ## Every node by itself -/

/-- Which marker counts for a node is settled by the markers of that node. -/
theorem chosen?_own (ms : List Marker) (i : NodeId) :
    chosen? (ms.filter fun m => m.id = i) i = chosen? ms i := by
  have own : (ms.filter fun m => m.id = i).filter (declares i) = ms.filter (declares i) := by
    rw [List.filter_filter]
    refine List.filter_congr fun m _ => ?_
    by_cases hi : m.id = i <;> simp [declares, hi]
  rw [chosen?, chosen?, own]

theorem conflict?_own (before : List Marker) (m : Marker) :
    conflict? (before.filter fun k => k.id = m.id) m = conflict? before m := by
  have after : (before.filter fun k => k.id = m.id) ++ [m] =
      (before ++ [m]).filter fun k => k.id = m.id := by
    rw [List.filter_append, List.filter_cons_of_pos (by simp), List.filter_nil]
  rw [conflict?, conflict?, after, chosen?_own, chosen?_own]

/-- **The conflicts of a node are those among its own markers.** -/
theorem conflicts_own (ms : List Marker) (i : NodeId) :
    conflicts (ms.filter fun m => m.id = i) = (conflicts ms).filter fun x => x.id = i := by
  induction ms using List.reverseRecOn with
  | nil => rfl
  | append_singleton ms m ih =>
    rw [List.filter_append, conflicts_append, List.filter_append, ← ih]
    have named : ∀ x ∈ (conflict? ms m).toList, x.id = m.id := fun x hx =>
      (kept_of_conflict? (Option.mem_toList.1 hx)).1
    by_cases hi : m.id = i
    · subst hi
      have all : (conflict? ms m).toList.filter (fun x => x.id = m.id) = (conflict? ms m).toList :=
        List.filter_eq_self.2 fun x hx => by simp [named x hx]
      rw [all, List.filter_cons_of_pos (by simp), List.filter_nil, conflicts_append, conflict?_own]
    · have none : (conflict? ms m).toList.filter (fun x => x.id = i) = [] :=
        List.filter_eq_nil_iff.2 fun x hx => by simpa [named x hx] using hi
      rw [none, List.filter_cons_of_neg (by simpa using hi), List.filter_nil, List.append_nil,
        List.append_nil]

/-! ## All nodes together -/

namespace Reordered

theorem perm (h : Reordered ms ks) : ms.Perm ks := perm_of_filter_eq h

theorem chosen? (h : Reordered ms ks) (i : NodeId) : Marker.chosen? ms i = Marker.chosen? ks i := by
  rw [← chosen?_own ms, h i, chosen?_own ks]

theorem conflicts (h : Reordered ms ks) (i : NodeId) :
    ((Marker.conflicts ms).filter fun x => x.id = i) =
      (Marker.conflicts ks).filter fun x => x.id = i := by
  rw [← conflicts_own ms, h i, conflicts_own ks]

theorem known (h : Reordered ms ks) :
    (Roster.empty.mergeAll ms).known = (Roster.empty.mergeAll ks).known := by
  refine Std.ExtTreeMap.ext_getElem? fun {i} => ?_
  rw [Roster.known_mergeAll, Roster.known_mergeAll, h.chosen? i]

theorem markers (h : Reordered ms ks) :
    (Roster.empty.mergeAll ms).markers = (Roster.empty.mergeAll ks).markers := by
  rw [Roster.markers, h.known, Roster.markers]

end Reordered

end Marker

/-! ## Sweeps -/

/-- Two reports that agree on everything but on how the conflicts of different nodes are mixed. -/
structure SurveyReport.Alike (p q : SurveyReport) : Prop where
  scanned : p.scanned = q.scanned
  conflicts (i : NodeId) :
    (p.conflicts.filter fun x => x.id = i) = q.conflicts.filter fun x => x.id = i
  invalid : p.invalid = q.invalid
  unanchored : p.unanchored = q.unanchored
  disconnected : p.disconnected = q.disconnected
  origin : p.origin = q.origin

namespace Sweep

variable {c : BuildSettings} {t : Host} {ms ks : MarkerRoll} {r : RegionId}

/-- **The same nodes are found** on the same anchors. -/
theorem sites_reordered (h : Marker.Reordered (ms.markers r) (ks.markers r)) :
    sites c t ms r = sites c t ks r := by
  rw [sites, h.markers, sites]

/-- **The same is reported**, but for the mixture of the conflicts. -/
theorem report_reordered (h : Marker.Reordered (ms.markers r) (ks.markers r)) :
    (report c t ms r).Alike (report c t ks r) := by
  obtain ⟨scanned, invalid⟩ := Roster.counts_mergeAll .empty (ms.markers r)
  obtain ⟨scanned', invalid'⟩ := Roster.counts_mergeAll .empty (ks.markers r)
  refine ⟨?_, fun i => ?_, ?_, ?_, rfl, rfl⟩
  · exact scanned.trans (h.perm.length_eq ▸ scanned'.symm)
  · simp only [report, Roster.report, Roster.conflicts_mergeAll]
    exact h.conflicts i
  · exact invalid.trans ((congrArg _ (h.perm.countP_eq _)).trans invalid'.symm)
  · simp only [report, Roster.report, sites_reordered h]

/-- **As many units are taken.** -/
theorem cost_reordered (h : Marker.Reordered (ms.markers r) (ks.markers r)) :
    Stepwise.cost (start c t ms r) = Stepwise.cost (start c t ks r) := by
  have ids : (Marker.ids (ms.markers r)).length = (Marker.ids (ks.markers r)).length := by
    rw [← (Roster.perm_ids_mergeAll _).length_eq, h.markers, (Roster.perm_ids_mergeAll _).length_eq]
  rw [cost_start, cost_start, h.perm.length_eq, ids]

end Sweep

end Signalbox
