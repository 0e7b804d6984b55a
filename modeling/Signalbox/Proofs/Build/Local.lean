import Signalbox.Proofs.Build.Whole
import Signalbox.Proofs.Survey.Trace
import Signalbox.Proofs.Territory.Separate

/-!
# Builds around start cells

A build around start cells yields that part of the build of the whole region which stands on the
traced track, provided that no node straddles the edge of that track.  The two builds survey by
different means and settle cells in different orders; they agree because the traced sites are
separate from the others.

* `Network.partOf_of_assemble` : what the kept of separate sites assemble;
* `Trace.separate_standsOn`    : sites on flooded track are separate from the others;
* `Job.around_partOf_whole`    : the network of a build around start cells.
-/

set_option autoImplicit false

namespace Signalbox

/-! ## Parts of networks -/

/-- A network is the part of another one that stands inside: it has the nodes inside and the edges
between them, and no edge of the other network leads out. -/
structure Network.PartOf (g h : Network) (inside : Node → Prop) : Prop where
  node (i : NodeId) (n : Node) : g.nodeMap[i]? = some n ↔ h.nodeMap[i]? = some n ∧ inside n
  edge (k : Ends) (e : Edge) : g.edgeMap[k]? = some e ↔
    h.edgeMap[k]? = some e ∧ e.source ∈ g.nodeMap ∧ e.target ∈ g.nodeMap
  apart (k : Ends) (e : Edge) : h.edgeMap[k]? = some e →
    (e.source ∈ g.nodeMap ↔ e.target ∈ g.nodeMap)

namespace Network

variable {t : Track} {ns : List Site} {keep : Site → Bool} {speed : Binary32} {g h : Network}

/-- An edge carries what its network knows about its ends, and nothing else. -/
theorem edgeOfLink_congr {l : Link} (ha : g.node? l.a = h.node? l.a)
    (hb : g.node? l.b = h.node? l.b) : g.edgeOfLink speed l = h.edgeOfLink speed l := by
  simp only [edgeOfLink, detailsBetween, detailsOf, ha, hb]

theorem node?_ofNodes_filter (ids : (ns.map Site.id).Nodup) {i : NodeId}
    (hi : i ∈ (ns.filter keep).map Site.id) :
    (ofNodes ((ns.filter keep).map Site.node)).node? i = (ofNodes (ns.map Site.node)).node? i := by
  obtain ⟨m, hm, rfl⟩ := List.mem_map.1 hi
  rw [node?_ofNodes (Territory.nodup_kept ids) hm, node?_ofNodes ids (List.mem_filter.1 hm).1]

/-- **The kept of separate sites assemble a part of the network** that all sites assemble. -/
theorem partOf_of_assemble {inside : Node → Prop} (ids : (ns.map Site.id).Nodup)
    (laid : ∀ m ∈ ns, ∀ a ∈ m.anchors, a ∈ t) (apart : Territory.Separate t ns keep)
    (keeps : ∀ m ∈ ns, keep m = true ↔ inside m.node)
    (hg : assemble (ns.filter keep) (Territory.taken t (ns.filter keep)).links speed = .ok g)
    (hh : assemble ns (Territory.taken t ns).links speed = .ok h) : g.PartOf h inside := by
  have kept_laid : ∀ m ∈ ns.filter keep, ∀ a ∈ m.anchors, a ∈ t :=
    fun m hm => laid m (List.mem_filter.1 hm).1
  have kept_ids : ((ns.filter keep).map Site.id).Nodup := Territory.nodup_kept ids
  obtain ⟨g', hg', gnodes, gedges⟩ :=
    assemble_ok speed kept_ids (Territory.sound_links kept_ids kept_laid)
  obtain ⟨h', hh', hnodes, hedges⟩ := assemble_ok speed ids (Territory.sound_links ids laid)
  cases hg.symm.trans hg'
  cases hh.symm.trans hh'
  have known (i : NodeId) : i ∈ g.nodeMap ↔ i ∈ (ns.filter keep).map Site.id := by
    rw [mem_iff_lookup, List.mem_map]
    simp only [gnodes]
    exact ⟨fun ⟨_, m, hm, hi, _⟩ => ⟨m, hm, hi⟩, fun ⟨m, hm, hi⟩ => ⟨m.node, m, hm, hi, rfl⟩⟩
  refine ⟨fun i n => ?node, fun k e => ?edge, fun k e he => ?apart⟩
  case node =>
    rw [gnodes, hnodes]
    constructor
    · rintro ⟨m, hm, hi, rfl⟩
      obtain ⟨hmn, kept⟩ := List.mem_filter.1 hm
      exact ⟨⟨m, hmn, hi, rfl⟩, (keeps m hmn).1 kept⟩
    · rintro ⟨⟨m, hm, hi, rfl⟩, hin⟩
      exact ⟨m, List.mem_filter.2 ⟨hm, (keeps m hm).2 hin⟩, hi, rfl⟩
  case edge =>
    rw [gedges, hedges, known, known]
    constructor
    · rintro ⟨l, hl, rfl, rfl⟩
      obtain ⟨hln, ha, hb⟩ := (Territory.mem_links_filter ids laid apart).1 hl
      exact ⟨⟨l, hln, rfl, edgeOfLink_congr (node?_ofNodes_filter ids ha)
        (node?_ofNodes_filter ids hb)⟩, ha, hb⟩
    · rintro ⟨⟨l, hl, rfl, rfl⟩, ha, hb⟩
      exact ⟨l, (Territory.mem_links_filter ids laid apart).2 ⟨hl, ha, hb⟩, rfl,
        (edgeOfLink_congr (node?_ofNodes_filter ids ha) (node?_ofNodes_filter ids hb)).symm⟩
  case apart =>
    obtain ⟨l, hl, -, rfl⟩ := (hedges k e).1 he
    rw [known, known]
    exact Territory.kept_iff_of_link ids laid apart hl

end Network

/-! ## Builds -/

namespace Trace

variable {c : BuildSettings} {t : Host} {ms : MarkerRoll} {r : RegionId} {seeds : Seeds}
  {starts : List Cell} {o : StartOrigin}

/-- Sites on flooded track are separate from the others if no site straddles its edge. -/
theorem separate_standsOn {ns : List Site} (laid : ∀ m ∈ ns, ∀ a ∈ m.anchors, a ∈ t.laid)
    (chosen : (mustered c t ms r seeds).startCells? = some (starts, o))
    (whole : ∀ m ∈ ns, Undivided (flooded c t ms r seeds) m.anchors) :
    Territory.Separate t.laid ns (Site.standsOn (flooded c t ms r seeds)) := by
  obtain ⟨traced, -⟩ := finished_start chosen
  rintro m hm k hk n ⟨b, hb, a, ha, walk⟩
  rw [Bool.eq_iff_iff, Site.standsOn_iff_mem (whole m hm) ha, Site.standsOn_iff_mem (whole k hk) hb,
    flooded, traced, traced]
  exact Track.Traced.congr (laid m hm a ha) ⟨n, walk⟩

end Trace

namespace Job

variable {c : BuildSettings} {t : Host} {ms : MarkerRoll} {r : RegionId} {seeds : Seeds}
  {starts : List Cell} {o : StartOrigin}

/-- **A build around start cells is the part on traced track of the whole build.**  Let no marker
come from a tool, let there be start cells, and let the track near every known node be either all
flooded or not at all.  Then the flooded cells are those connected to a start cell, both builds tell
of a network, whatever the schedules that finish them, and the network around the start cells is the
part of the whole one whose nodes are near some track, all of it flooded. -/
theorem around_partOf_whole (bare : seeds.toolMarkers = [])
    (chosen : (Trace.mustered c t ms r seeds).startCells? = some (starts, o))
    (whole : ∀ m ∈ (Roster.empty.mergeAll (ms.markers r)).markers,
      Undivided (Trace.flooded c t ms r seeds) (t.nearest m.pos c.anchorRadius))
    {bs ds : List Allowance} (hb : ((start c t ms r .whole).after bs).isDone = true)
    (hd : ((start c t ms r (.around seeds)).after ds).isDone = true) :
    (∀ d, d ∈ Trace.flooded c t ms r seeds ↔ t.laid.Traced starts d) ∧
    ∃ all near : BuiltRegion,
      (start c t ms r .whole).told bs = .phase r .exploring :: successNotices all ∧
      (start c t ms r (.around seeds)).told ds = .phase r .exploring :: successNotices near ∧
      near.network.PartOf all.network fun n =>
        t.nearest n.pos c.anchorRadius ≠ [] ∧
          ∀ a ∈ t.nearest n.pos c.anchorRadius, a ∈ Trace.flooded c t ms r seeds := by
  have ids := Sweep.nodup_ids c t ms r
  have laid := Sweep.laid_anchors c t ms r
  have undivided : ∀ m ∈ Sweep.sites c t ms r,
      Undivided (Trace.flooded c t ms r seeds) m.anchors := by
    intro m hm
    obtain ⟨k, hk, rfl⟩ := List.mem_map.1 hm
    exact whole k hk
  have apart := Trace.separate_standsOn laid chosen undivided
  have swept := outcome_whole c t ms r
  obtain ⟨report', traced⟩ := Trace.outcome_around bare chosen whole
  obtain ⟨all, tells, hall⟩ := conclude_found swept ids laid
  obtain ⟨near, tells', hnear⟩ := conclude_found traced (Territory.nodup_kept ids)
    fun m hm => laid m (List.mem_filter.1 hm).1
  refine ⟨(Trace.finished_start chosen).1, all, near, (told_eq_of_isDone hb).trans tells,
    (told_eq_of_isDone hd).trans tells',
    Network.partOf_of_assemble ids laid apart (fun m hm => ?_) hnear hall⟩
  rw [Site.standsOn_iff_all (undivided m hm), Sweep.anchors_of_mem_sites hm]

/-- Two stations on a line and a third one on another line: from a cell of the first line the first
two are built. -/
theorem around_partOf_whole_two_lines :
    let track := [⟨0, 64, 0⟩, ⟨1, 64, 0⟩, ⟨2, 64, 0⟩, ⟨0, 64, 9⟩, ⟨1, 64, 9⟩].foldl
      Track.insert .empty
    let station (name : String) (x z : Int32) : Marker :=
      ⟨⟨name⟩, .station, ⟨x, 65, z⟩, none, none⟩
    let roll := MarkerRoll.empty.extend ⟨"main"⟩
      [station "A" 0 0, station "B" 2 0, station "C" 0 9]
    let seeds : Seeds := { toolCells := [⟨1, 64, 0⟩] }
    let flooded := Trace.flooded {} track roll ⟨"main"⟩ seeds
    flooded.toList = [⟨0, 64, 0⟩, ⟨1, 64, 0⟩, ⟨2, 64, 0⟩] ∧
    ∃ all near : BuiltRegion,
      (start {} track roll ⟨"main"⟩ .whole).told [.units 100] =
        .phase ⟨"main"⟩ .exploring :: successNotices all ∧
      (start {} track roll ⟨"main"⟩ (.around seeds)).told [.units 100] =
        .phase ⟨"main"⟩ .exploring :: successNotices near ∧
      near.network.PartOf all.network fun n =>
        track.nearest n.pos 2 ≠ [] ∧ ∀ a ∈ track.nearest n.pos 2, a ∈ flooded := by
  intro track station roll seeds flooded
  have chosen : (Trace.mustered {} track roll ⟨"main"⟩ seeds).startCells? =
      some ([⟨1, 64, 0⟩], .tool) := by decide +kernel
  have whole : ∀ m ∈ (Roster.empty.mergeAll (roll.markers ⟨"main"⟩)).markers,
      Undivided flooded ((track : Host).nearest m.pos 2) := by
    unfold Undivided
    decide +kernel
  have finishes {scope : SurveyScope} (fits : (start {} track roll ⟨"main"⟩ scope).cost < 100) :
      ((start {} track roll ⟨"main"⟩ scope).after [.units 100]).isDone = true := isDone_step rfl fits
  have hb := @finishes .whole (by decide +kernel)
  have hd := @finishes (.around seeds) (by decide +kernel)
  obtain ⟨-, parts⟩ := around_partOf_whole rfl chosen whole hb hd
  simp only [Track.nearest_host] at parts
  exact ⟨by decide +kernel, parts⟩

end Job

end Signalbox
