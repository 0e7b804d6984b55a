import Signalbox.Proofs.Territory.Nodes
import Signalbox.Proofs.Track.Pairs

/-!
# How much work territory takes

A cell may wait several times, but only once for every pair of neighbours: when the first of two
neighbouring cells gets its owner, the other one waits, and when the second one does, neither of them
waits for the other.  So the units still to be spent are the waiting cells and the pairs of cells of
which nobody owns either.

* `Territory.openPairs_settle` : a settled cell closes a pair with every neighbour that it lets wait;
* `Territory.cost_start`       : all territory takes a unit for every anchor and every pair.
-/

set_option autoImplicit false

namespace Signalbox

namespace Territory

variable {s : Territory} {c d : Cell} {r : Reach} {rest : Queue (Cell × Reach)}

/-! ## Open pairs -/

/-- The anchors of all origins. -/
def anchored (s : Territory) : Set Cell := {c | ∃ o, Origin.Anchored s.origins o c}

/-- The pairs of neighbouring cells within reach of which nobody owns either. -/
def openPairs (s : Territory) : Set (Sym2 Cell) :=
  {p | p ∈ s.track.pairsFrom s.anchored ∧ ∀ c ∈ p, c ∉ s.owners}

/-- The units still to be spent: one for every waiting cell, and one for every open pair. -/
noncomputable def effort (s : Territory) : Nat := s.queue.length + s.openPairs.ncard

theorem finite_openPairs (laid : s.Laid) : s.openPairs.Finite := by
  have anchors : ∀ a ∈ s.anchored, a ∈ s.track := by
    rintro a ⟨o, ha⟩
    exact laid o a ha
  exact (Track.finite_pairsFrom anchors).subset fun p hp => hp.1

theorem Frontier.connected (h : Frontier s) (hr : s.Reached c r) :
    ∃ a ∈ s.anchored, s.track.Connected a c := by
  obtain ⟨a, ha, hw⟩ := h.arrives hr
  exact ⟨a, ⟨_, ha⟩, _, hw⟩

/-- The neighbours that a settled cell lets wait. -/
def arriving (s : Territory) (c : Cell) (r : Reach) : List Cell :=
  (s.track.neighbors c).filter fun d => decide (d ∉ s.owners.insert c r)

theorem mem_arriving : d ∈ s.arriving c r ↔ d ∈ s.track.neighbors c ∧ d ≠ c ∧ d ∉ s.owners := by
  rw [arriving, List.mem_filter, decide_eq_true_eq, Std.ExtTreeMap.mem_insert, not_or,
    Std.compare_eq_iff_eq, eq_comm]

/-- **A settled cell closes a pair with every neighbour that it lets wait**, and no other pair. -/
theorem openPairs_settle (h : Frontier s) (laid : s.Laid)
    (hq : s.queue.toList = (c, r) :: rest.toList) (hc : c ∉ s.owners) :
    s.openPairs = ((s.behind rest).settle c r).openPairs ∪
      (fun d => s(c, d)) '' {d | d ∈ s.arriving c r} := by
  have waits : s.Reached c r := Or.inr (by rw [hq]; exact List.mem_cons_self ..)
  have track : ((s.behind rest).settle c r).track = s.track := track_settle _ c r
  have origins : ((s.behind rest).settle c r).origins = s.origins := origins_settle _ c r
  have owners : ((s.behind rest).settle c r).owners = s.owners.insert c r := owners_settle _ c r
  have owned (x : Cell) : x ∉ s.owners.insert c r ↔ x ≠ c ∧ x ∉ s.owners := by
    rw [Std.ExtTreeMap.mem_insert, not_or, Std.compare_eq_iff_eq, eq_comm]
  ext p
  simp only [openPairs, anchored, track, origins, owners, owned, Set.mem_union, Set.mem_ofPred_eq,
    Set.mem_image, mem_arriving]
  constructor
  · rintro ⟨⟨a, ha, x, y, hax, hy, rfl⟩, free⟩
    have xFree := free x (by simp)
    have yFree := free y (by simp)
    by_cases hxc : x = c
    · subst hxc
      refine Or.inr ⟨y, ⟨hy, ?_, yFree⟩, rfl⟩
      rintro rfl
      exact Track.not_mem_neighbors_self _ _ hy
    by_cases hyc : y = c
    · subst hyc
      obtain ⟨o, anchor⟩ := ha
      obtain ⟨n, hw⟩ := hax
      have xLaid : x ∈ s.track := hw.mem (laid o a anchor)
      exact Or.inr ⟨x, ⟨Track.mem_neighbors_symm xLaid hy, hxc, xFree⟩, Sym2.eq_swap⟩
    · refine Or.inl ⟨⟨a, ha, x, y, hax, hy, rfl⟩, fun z hz => ?_⟩
      rcases Sym2.mem_iff.1 hz with rfl | rfl
      · exact ⟨hxc, xFree⟩
      · exact ⟨hyc, yFree⟩
  · rintro (⟨pair, free⟩ | ⟨y, ⟨hy, -, yFree⟩, rfl⟩)
    · exact ⟨pair, fun z hz => (free z hz).2⟩
    · obtain ⟨a, ha, connected⟩ := h.connected waits
      refine ⟨⟨a, ha, c, y, connected, hy, rfl⟩, fun z hz => ?_⟩
      rcases Sym2.mem_iff.1 hz with rfl | rfl
      · exact hc
      · exact yFree

theorem effort_settle (h : Frontier s) (laid : s.Laid)
    (hq : s.queue.toList = (c, r) :: rest.toList) (hc : c ∉ s.owners) :
    s.effort = ((s.behind rest).settle c r).effort + 1 := by
  let t := (s.behind rest).settle c r
  let closed : Set (Sym2 Cell) := (fun d => s(c, d)) '' {d | d ∈ s.arriving c r}
  have split : s.openPairs = t.openPairs ∪ closed := openPairs_settle h laid hq hc
  have apart : Disjoint t.openPairs closed := by
    rw [Set.disjoint_left]
    rintro p ⟨-, free⟩ ⟨d, -, rfl⟩
    -- the settled cell is owned now
    refine free c (by simp) ?_
    rw [owners_settle]
    simp
  have finite := finite_openPairs laid
  rw [split, Set.finite_union] at finite
  have count : closed.ncard = (s.arriving c r).length := by
    have injective : Function.Injective fun d => s(c, d) := fun _ _ => Sym2.congr_right.1
    rw [Set.ncard_image_of_injective _ injective, ncard_setOf_mem]
    exact (Track.nodup_neighbors s.track c).filter _
  have queue : t.queue.length = rest.length + (s.arriving c r).length := by
    rw [← Queue.length_toList, queue_settle, List.length_append, List.length_map,
      Queue.length_toList]
    rfl
  have front : s.queue.length = rest.length + 1 := by
    rw [← Queue.length_toList, hq, List.length_cons, Queue.length_toList]
  have pairs : s.openPairs.ncard = t.openPairs.ncard + closed.ncard := by
    rw [split, Set.ncard_union_eq apart finite.1 finite.2]
  show s.queue.length + s.openPairs.ncard = t.queue.length + t.openPairs.ncard + 1
  omega

theorem effort_advance (h : Frontier s) (laid : s.Laid) (hs : s.isDone = false) :
    s.effort = s.advance.effort + 1 := by
  obtain ⟨c, r, rest, hq, ⟨-, he⟩ | ⟨hc, he⟩⟩ := advance_cases hs
  · have front : s.queue.length = rest.length + 1 := by
      rw [← Queue.length_toList, hq, List.length_cons, Queue.length_toList]
    have same : (s.behind rest).openPairs = s.openPairs := rfl
    rw [he, effort, effort, same, front]
    show rest.length + 1 + _ = rest.length + _ + 1
    omega
  · rw [he]
    exact effort_settle h laid hq hc

/-- When nothing waits, every pair within reach has an owner on both sides. -/
theorem effort_of_isDone (h : Frontier s) (hs : s.isDone = true) : s.effort = 0 := by
  have none : s.openPairs = ∅ := by
    rw [Set.eq_empty_iff_forall_notMem]
    rintro p ⟨⟨a, ⟨o, ha⟩, c, d, ⟨n, hw⟩, -, rfl⟩, free⟩
    obtain ⟨r, hr, -⟩ := h.owned_of_arrives (a := ⟨n, o⟩) hs ⟨a, ha, hw⟩
    exact free c (by simp) (mem_iff_lookup.2 ⟨r, hr⟩)
  have still : s.queue.toList = [] := Queue.isEmpty_iff.1 hs
  rw [effort, none, Set.ncard_empty, ← Queue.length_toList, still, List.length_nil]

/-! ## All territory -/

variable {t : Track} {ns : List Site}

theorem cost_eq_effort (h : Frontier s) (laid : s.Laid) : Stepwise.cost s = s.effort :=
  Stepwise.cost_eq_of_count (P := fun s => Frontier s ∧ Laid s)
    (fun _ hs k => ⟨k.1.advance hs, k.2.advance⟩) (fun _ hs k => effort_of_isDone k.1 hs)
    (fun _ hs k => effort_advance k.1 k.2 hs) ⟨h, laid⟩

theorem anchored_start (ids : (ns.map Site.id).Nodup) :
    (start t ns).anchored = {a | ∃ m ∈ ns, a ∈ m.anchors} := by
  ext a
  simp only [anchored, origins_start, Origin.anchored_ofNodes ids, Set.mem_ofPred_eq]
  constructor
  · rintro ⟨o, -, m, hm, -, ha⟩
    exact ⟨m, hm, ha⟩
  · rintro ⟨m, hm, ha⟩
    exact ⟨⟨m.id, 0⟩, rfl, m, hm, rfl, ha⟩

/-- Before the first unit every anchor waits once. -/
theorem length_queue_start (t : Track) (ns : List Site) :
    (start t ns).queue.length = (start t ns).anchored.ncard := by
  have waiting : {a | a ∈ (start t ns).queue.toList.map Prod.fst} = (start t ns).anchored := by
    ext a
    simp only [anchored, origins_start, Set.mem_ofPred_eq, List.mem_map, mem_queue_start]
    constructor
    · rintro ⟨e, ⟨first, -⟩, rfl⟩
      exact ⟨_, first.1⟩
    · rintro ⟨o, ha⟩
      obtain ⟨p, hp⟩ := exists_firstAt ha
      exact ⟨(a, ⟨p, []⟩), ⟨hp, rfl⟩, rfl⟩
  rw [← waiting, ncard_setOf_mem (nodup_queue_start t ns), List.length_map, Queue.length_toList]

/-- **All territory takes a unit for every anchor and one for every pair of neighbouring cells that
can be reached from one.** -/
theorem cost_start (ids : (ns.map Site.id).Nodup) (laid : ∀ m ∈ ns, ∀ a ∈ m.anchors, a ∈ t) :
    Stepwise.cost (start t ns) = {a | ∃ m ∈ ns, a ∈ m.anchors}.ncard +
      (t.pairsFrom {a | ∃ m ∈ ns, a ∈ m.anchors}).ncard := by
  have fresh : (start t ns).openPairs = t.pairsFrom (start t ns).anchored := by
    ext p
    simp [openPairs]
  rw [cost_eq_effort (frontier_start t ns) (laid_start ids laid), effort, fresh,
    length_queue_start, anchored_start ids]

end Territory

end Signalbox
