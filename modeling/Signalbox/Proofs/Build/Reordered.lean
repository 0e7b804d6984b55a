import Signalbox.Proofs.Build.Whole
import Signalbox.Proofs.Survey.Reordered

/-!
# Builds from markers in another order

Two builds of one region whose markers are mixed in different ways take different paths: they scan
other pages, meet the nodes in another order, and may be stepped with other allowances.  They yield
the same all the same.  The survey hands on the nodes in the order of their ids, and from there on
nothing but the nodes and the track is looked at.

* `BuiltRegion.Alike`            : what may differ between such builds, which is little;
* `Job.marker_order_irrelevant`  : markers of different nodes may trade places.
-/

set_option autoImplicit false

namespace Signalbox

/-- Two results of a build that agree on everything but on how the conflicts of different nodes are
mixed in the report. -/
structure BuiltRegion.Alike (b k : BuiltRegion) : Prop where
  region : b.region = k.region
  network : b.network = k.network
  missing : b.missing = k.missing
  survey : b.survey.Alike k.survey
  processed : b.processed = k.processed

namespace Job

variable {c : BuildSettings} {t : Host} {ms ks : MarkerRoll} {r : RegionId}

/-- Jobs of a whole region yield results that are alike if their markers are only reordered. -/
theorem alike_of_reordered (reordered : Marker.Reordered (ms.markers r) (ks.markers r)) :
    ∃ built built', (start c t ms r .whole).conclude.2 = .phase r .exploring :: successNotices built ∧
      (start c t ks r .whole).conclude.2 = .phase r .exploring :: successNotices built' ∧
      built.Alike built' := by
  obtain ⟨g, hg, tells⟩ := notices_whole c t ms r
  obtain ⟨g', hg', tells'⟩ := notices_whole c t ks r
  refine ⟨_, _, tells, tells', ?_⟩
  have network : g = g' := by
    rw [← Sweep.sites_reordered reordered, hg] at hg'
    exact Except.ok.inj hg'
  exact {
    region := rfl
    network := network
    missing := by simp only [Sweep.sites_reordered reordered]
    survey := Sweep.report_reordered reordered
    processed := by simp only [Sweep.sites_reordered reordered, Sweep.cost_reordered reordered] }

/-- A build in one go yields what a schedule tells of, unless that has no nodes. -/
theorem buildRegion_of_told {scope : SurveyScope} {bs : List Allowance} {built : BuiltRegion}
    (usable : c.check = .ok ()) (ended : ((start c t ms r scope).after bs).isDone = true)
    (tells : (start c t ms r scope).told bs = .phase r .exploring :: successNotices built) :
    buildRegion c t ms r scope =
      if built.network.isEmpty then .error (.noNodes r) else .ok built := by
  have notices := (told_eq_of_isDone ended).symm.trans tells
  obtain ⟨result, hres, named⟩ := result_conclude (j := start c t ms r scope) rfl
  rw [notices] at hres
  obtain rfl : .ok built = result := List.head_eq_of_cons_eq hres
  have region : built.region = r := named built rfl
  unfold buildRegion
  rw [usable, runNotices_eq (by decide), notices, ← region]
  rfl

/-- **Markers of different nodes may trade places.**  Two builds of a region whose markers are the
same for every node, in the same order, come to results that are alike, however each of them is
stepped; built in one go, both fail for want of nodes or yield these results. -/
theorem marker_order_irrelevant (usable : c.check = .ok ())
    (reordered : Marker.Reordered (ms.markers r) (ks.markers r)) {bs ds : List Allowance}
    (hb : ((start c t ms r .whole).after bs).isDone = true)
    (hd : ((start c t ks r .whole).after ds).isDone = true) :
    ∃ built built',
      (start c t ms r .whole).told bs = .phase r .exploring :: successNotices built ∧
      (start c t ks r .whole).told ds = .phase r .exploring :: successNotices built' ∧
      built.Alike built' ∧
      buildRegion c t ms r .whole =
        (if built.network.isEmpty then .error (.noNodes r) else .ok built) ∧
      buildRegion c t ks r .whole =
        (if built.network.isEmpty then .error (.noNodes r) else .ok built') := by
  obtain ⟨built, built', tells, tells', alike⟩ := alike_of_reordered (c := c) (t := t) reordered
  have told := (told_eq_of_isDone hb).trans tells
  have told' := (told_eq_of_isDone hd).trans tells'
  refine ⟨built, built', told, told', alike, buildRegion_of_told usable hb told, ?_⟩
  rw [alike.network]
  exact buildRegion_of_told usable hd told'

/-- Two stations that are declared twice each, and a marker without an id: the conflicts are noted
in another order, and nothing else differs. -/
theorem marker_order_irrelevant_line :
    let line := (Track.empty.insert ⟨0, 64, 0⟩).insert ⟨1, 64, 0⟩ |>.insert ⟨2, 64, 0⟩
    let marker (name : String) (x y : Int32) : Marker := ⟨⟨name⟩, .station, ⟨x, y, 0⟩, none, none⟩
    let roll := MarkerRoll.empty.extend ⟨"main"⟩
      [marker "A" 0 65, marker "B" 2 65, marker "A" 0 66, marker "B" 2 66, marker "" 1 65]
    let mixed := MarkerRoll.empty.extend ⟨"main"⟩
      [marker "B" 2 65, marker "" 1 65, marker "B" 2 66, marker "A" 0 65, marker "A" 0 66]
    let job := start {} line roll ⟨"main"⟩ .whole
    let twin := start {} line mixed ⟨"main"⟩ .whole
    Marker.Reordered (roll.markers ⟨"main"⟩) (mixed.markers ⟨"main"⟩) ∧
      (Sweep.report {} line roll ⟨"main"⟩).conflicts ≠
        (Sweep.report {} line mixed ⟨"main"⟩).conflicts ∧
      (job.after [.units 100]).isDone = true ∧ (twin.after [.units 50]).isDone = true ∧
      ∃ built built',
        job.told [.units 100] = .phase ⟨"main"⟩ .exploring :: successNotices built ∧
        twin.told [.units 50] = .phase ⟨"main"⟩ .exploring :: successNotices built' ∧
        built.Alike built' := by
  intro line marker roll mixed job twin
  have reordered : Marker.Reordered (roll.markers ⟨"main"⟩) (mixed.markers ⟨"main"⟩) := by
    decide +kernel
  have total : job.cost < 50 := by decide +kernel
  have total' : twin.cost < 50 := by decide +kernel
  have hb : (job.after [.units 100]).isDone = true :=
    isDone_step rfl (Nat.lt_trans total (by decide))
  have hd : (twin.after [.units 50]).isDone = true := isDone_step rfl total'
  obtain ⟨built, built', tells, tells', alike, -⟩ :=
    marker_order_irrelevant (c := {}) (t := line) rfl reordered hb hd
  exact ⟨reordered, by decide +kernel, hb, hd, built, built', tells, tells', alike⟩

end Job

end Signalbox
