import Signalbox.Proofs.Build.LifeCycle
import Signalbox.Proofs.Track.Grid
import Signalbox.Proofs.Track.Pairs

/-!
# Builds on a grid

A build asks the host that it is for three things: whether a cell holds track, which cells are
connected to it, and which track is nearest to a position.  A grid answers as the track that is laid
on it, and only that track counts, not how it came to be laid.  So builds on two grids with the same
cells are the same.

* `Grid.shows_ofPlan`         : the answers of a grid are those of the track that its plan lays;
* `Grid.Shows.host_eq`        : hosts with the answers of grids that answer alike are the same;
* `Grid.history_irrelevant`   : what the answers are, and that the plan does not matter otherwise;
* `Grid.start_host`           : a build on a grid is that on the track of its plan.
-/

set_option autoImplicit false

namespace Signalbox

namespace Grid

variable {σ τ : Type} {ix : PointIndex σ} {jx : PointIndex τ} {g : Grid σ} {h : Grid τ}
  {points : σ → List Point} {others : τ → List Point} {t u : Host}

/-- The answers of a grid to all that a build asks are those of a host. -/
structure Shows (ix : PointIndex σ) (g : Grid σ) (t : Host) : Prop where
  isTrack (c : Cell) : g.isTrack c = t.laid.isTrack c
  neighbors (c : Cell) : g.neighbors c = t.laid.neighbors c
  nearest (p : Cell) (radius : UInt32) : g.nearest ix p radius = t.nearest p radius

theorem shows_ofPlan (lawful : ix.Lawful points) (plan : List Track.LayingStep) :
    Shows ix (ofPlan ix plan) (Track.ofPlan plan) := by
  have step := inStep_ofPlan lawful plan
  refine ⟨fun c => ?_, fun c => ?_, step.nearest_eq lawful⟩
  · rw [Grid.isTrack, step.laid, Track.laid_host]
  · rw [Grid.neighbors, step.laid, Track.laid_host]

/-- Hosts with the answers of grids that answer alike are the same. -/
theorem Shows.host_eq (hg : Shows ix g t) (hh : Shows jx h u)
    (same : ∀ c, g.isTrack c = h.isTrack c)
    (near : ∀ p radius, g.nearest ix p radius = h.nearest jx p radius) : t = u := by
  refine Host.ext (fun c => ?_) fun p radius => ?_
  · have answers : t.laid.isTrack c = u.laid.isTrack c := by
      rw [← hg.isTrack, same, hh.isTrack]
    simpa [Track.isTrack] using answers
  · rw [← hg.nearest, near, hh.nearest]

/-- **Only the laid cells count.**  Whatever was laid and taken up on empty ground, with whatever
spatial index, the answers are those of the track that is laid: the nearest track is, in ascending
order, the laid cells at the least distance from the position, if that is within the radius; no cell is
its own neighbour or listed twice as one, and laid cells are neighbours of each other.  If another plan
comes to the same cells, also with another index, all queries are answered alike, and the builds on the
two grids are the same. -/
theorem history_irrelevant (lawful : ix.Lawful points) (lawful' : jx.Lawful others)
    (plan plan' : List Track.LayingStep) :
    let g := ofPlan ix plan
    let h := ofPlan jx plan'
    Shows ix g (Track.ofPlan plan) ∧
    (∀ p radius,
      (∀ c, c ∈ g.nearest ix p radius ↔ g.isTrack c = true ∧
        (∀ d, g.isTrack d = true → p.separation c ≤ p.separation d) ∧
        p.separation c ≤ Rounding.roundBits 53 (radius.toNat * radius.toNat)) ∧
      (g.nearest ix p radius).Pairwise fun a b => compare a b = .lt) ∧
    (∀ c, c ∉ g.neighbors c ∧ (g.neighbors c).Nodup ∧
      ∀ d, g.isTrack c = true → d ∈ g.neighbors c → c ∈ g.neighbors d) ∧
    ((∀ c, g.isTrack c = h.isTrack c) →
      (g.laid.size = h.laid.size ∧ (∀ c, g.neighbors c = h.neighbors c) ∧
        ∀ p radius, g.nearest ix p radius = h.nearest jx p radius) ∧
      ∀ t u : Host, Shows ix g t → Shows jx h u → ∀ c ms r scope,
        (∀ ks, (Job.start c t ms r scope).drive ks = (Job.start c u ms r scope).drive ks) ∧
          buildRegion c t ms r scope = buildRegion c u ms r scope) := by
  intro g h
  have shows_g : Shows ix g (Track.ofPlan plan) := shows_ofPlan lawful plan
  have shows_h : Shows jx h (Track.ofPlan plan') := shows_ofPlan lawful' plan'
  have laid (c : Cell) : g.isTrack c = true ↔ c ∈ Track.ofPlan plan := by
    rw [shows_g.isTrack, Track.laid_host, Track.isTrack, decide_eq_true_eq]
  have alike (same : ∀ c, g.isTrack c = h.isTrack c) : Track.ofPlan plan = Track.ofPlan plan' := by
    refine Track.ext fun c => ?_
    rw [← laid, same, shows_h.isTrack, Track.laid_host, Track.isTrack, decide_eq_true_eq]
  have near (same : ∀ c, g.isTrack c = h.isTrack c) (p : Cell) (radius : UInt32) :
      g.nearest ix p radius = h.nearest jx p radius := by
    rw [shows_g.nearest, shows_h.nearest, alike same]
  refine ⟨shows_g, fun p radius => ⟨fun c => ?mem, ?sorted⟩, fun c => ⟨?self, ?nodup, fun d hc hd => ?symm⟩,
    fun same => ⟨⟨?size, fun c => ?cells, near same⟩, fun t u ht hu c ms r scope => ?builds⟩⟩
  case mem => simp only [shows_g.nearest, Track.nearest_host, laid, Track.mem_nearest]
  case sorted =>
    rw [shows_g.nearest, Track.nearest_host]
    unfold Track.nearest
    split
    · exact .nil
    · split
      · exact .nil
      · exact (Track.sorted_toList _).filter _
  case self =>
    rw [shows_g.neighbors]
    exact Track.not_mem_neighbors_self _ c
  case nodup =>
    rw [shows_g.neighbors]
    exact Track.nodup_neighbors _ c
  case symm =>
    rw [shows_g.neighbors] at hd ⊢
    exact Track.mem_neighbors_symm ((laid c).1 hc) hd
  case size => rw [(inStep_ofPlan lawful plan).laid, (inStep_ofPlan lawful' plan').laid, alike same]
  case cells => rw [shows_g.neighbors, shows_h.neighbors, alike same]
  case builds =>
    rw [ht.host_eq hu same (near same)]
    exact ⟨fun _ => rfl, rfl⟩

/-- A grid whose index is in step, as a host. -/
def InStep.host {t : Track} (h : InStep points g t) (lawful : ix.Lawful points) : Host where
  laid := g.laid
  nearest := g.nearest ix
  nearest_laid p radius c hc := by
    rw [h.nearest_eq lawful] at hc
    exact h.laid ▸ (Track.mem_nearest.1 hc).1

/-- **A build on a grid** itself is the build on the track that its plan lays. -/
theorem start_host (lawful : ix.Lawful points) (plan : List Track.LayingStep) (c : BuildSettings)
    (ms : MarkerRoll) (r : RegionId) (scope : SurveyScope) :
    Job.start c ((inStep_ofPlan lawful plan).host lawful) ms r scope =
      Job.start c (Track.ofPlan plan) ms r scope := by
  have itself : Shows ix (ofPlan ix plan) ((inStep_ofPlan lawful plan).host lawful) :=
    ⟨fun _ => rfl, fun _ => rfl, fun _ _ => rfl⟩
  rw [itself.host_eq (shows_ofPlan lawful plan) (fun _ => rfl) fun _ _ => rfl]

end Grid

/-- The spatial index that keeps its points in a list. -/
def PointIndex.listed : PointIndex (List Point) where
  empty := []
  insert ps p := p :: ps
  remove ps p := ps.erase p
  byDistance ps q :=
    (ps.map fun p => (p, q.separation p)).mergeSort fun d e => decide (d.2 ≤ e.2)

theorem PointIndex.lawful_listed : listed.Lawful id where
  empty := rfl
  insert _ _ := .refl _
  remove _ _ := .refl _
  listed ps q := by
    refine ((List.mergeSort_perm _ _).map Prod.fst).trans ?_
    rw [List.map_map]
    exact .of_eq (List.map_id ps)
  distance ps q e he := by
    obtain ⟨p, -, rfl⟩ := List.mem_map.1 ((List.mergeSort_perm _ _).mem_iff.1 he)
    rfl
  ascending ps q := by
    show ((ps.map fun p => (p, q.separation p)).mergeSort fun d e => decide (d.2 ≤ e.2)).Pairwise _
    refine (List.pairwise_mergeSort (fun a b c => ?_) (fun a b => ?_) _).imp of_decide_eq_true
    · simp; omega
    · simp; omega

/-- A line whose middle is taken up, and the same four cells laid by another plan that takes one up
elsewhere and lays one again.  The indexes keep their points in different orders. -/
theorem Grid.history_irrelevant_gap :
    let ix := PointIndex.listed
    let plan : List Track.LayingStep := [.line ⟨0, 64, 0⟩ ⟨4, 64, 0⟩, .remove ⟨2, 64, 0⟩]
    let plan' : List Track.LayingStep := [.cell ⟨4, 64, 0⟩, .cell ⟨3, 64, 0⟩, .cell ⟨9, 64, 0⟩,
      .path [⟨0, 64, 0⟩, ⟨1, 64, 0⟩], .remove ⟨9, 64, 0⟩, .cell ⟨1, 64, 0⟩]
    let g := ofPlan ix plan
    let h := ofPlan ix plan'
    let p : Cell := ⟨2, 66, 0⟩
    ix.Lawful id ∧ (∀ c, g.isTrack c = h.isTrack c) ∧
      g.index ≠ h.index ∧
      g.nearest ix p 3 = [⟨1, 64, 0⟩, ⟨3, 64, 0⟩] ∧ g.nearest ix p 3 = h.nearest ix p 3 ∧
      ∀ c ms r, buildRegion c (Track.ofPlan plan) ms r .whole =
        buildRegion c (Track.ofPlan plan') ms r .whole := by
  intro ix plan plan' g h p
  have lawful := PointIndex.lawful_listed
  have cells : g.laid.toList = h.laid.toList := by decide +kernel
  have same (c : Cell) : g.isTrack c = h.isTrack c := by
    simp only [Grid.isTrack, Track.isTrack, ← Track.mem_toList, cells]
  obtain ⟨answers, -, -, alike⟩ := history_irrelevant lawful lawful plan plan'
  obtain ⟨⟨-, -, nearest⟩, builds⟩ := alike same
  have beside : g.nearest ix p 3 = [⟨1, 64, 0⟩, ⟨3, 64, 0⟩] := by
    rw [answers.nearest]
    decide +kernel
  refine ⟨lawful, same, by decide +kernel, beside, nearest p 3, fun c ms r => ?_⟩
  exact (builds _ _ answers (shows_ofPlan lawful plan') c ms r .whole).2

end Signalbox
