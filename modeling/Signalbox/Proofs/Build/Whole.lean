import Signalbox.Proofs.Build.Assembly
import Signalbox.Proofs.Build.Notices
import Signalbox.Proofs.Survey.Sweep
import Signalbox.Proofs.Territory.Linkage

/-!
# Builds of whole regions

A build that sweeps its region always comes to a network.  Its nodes are those that the sweep finds,
and its edges are the links of the territory that these nodes take.

* `Job.notices_found`  : what a build yields that has found nodes;
* `Job.notices_whole`  : what a build of a whole region yields;
* `Job.conclude_whole` : it always comes to a network, which draws what was found;
* `Job.draws_of_told`  : the network of which such a build tells;
* `Job.lengths_of_told` : the lengths of its edges fit a word.
-/

set_option autoImplicit false

namespace Signalbox

theorem Territory.sound_links {t : Track} {ns : List Site} (ids : (ns.map Site.id).Nodup)
    (laid : ∀ m ∈ ns, ∀ a ∈ m.anchors, a ∈ t) :
    Link.Sound (ns.map Site.id) (taken t ns).links := by
  have o := outcome_taken ids laid
  refine ⟨fun l hl => ?_, fun l hl => ?_, ?_⟩
  · exact Ident.lt_iff_le_and_ne.1 (o.ascending l hl)
  · obtain ⟨m, hm, k, hk, ha, hb, -⟩ := walk_of_joins ids laid (Or.inl hl)
    rw [← ha, ← hb]
    exact ⟨List.mem_map_of_mem hm, List.mem_map_of_mem hk⟩
  · apply o.sorted.imp
    intro l k hlt he
    have ha : l.a = k.a := congrArg Ends.a he
    have hb : l.b = k.b := congrArg Ends.b he
    rcases hlt with hlt | ⟨-, hlt⟩
    · rw [ha] at hlt
      exact Ident.lt_irrefl _ hlt
    · rw [hb] at hlt
      exact Ident.lt_irrefl _ hlt

theorem Sweep.laid_anchors (c : BuildSettings) (t : Host) (ms : MarkerRoll) (r : RegionId) :
    ∀ m ∈ sites c t ms r, ∀ a ∈ m.anchors, a ∈ t.laid := by
  intro m hm a ha
  rw [anchors_of_mem_sites hm] at ha
  exact t.nearest_laid _ _ a ha

/-- The network draws some sites and links: its nodes are those of the sites, and its edges, which
may be used in both directions, are the links. -/
structure Network.Draws (g : Network) (ns : List Site) (links : List Link) : Prop where
  node (i : NodeId) (n : Node) : g.nodeMap[i]? = some n ↔ ∃ m ∈ ns, m.id = i ∧ m.node = n
  edge (k : Ends) (e : Edge) : g.edgeMap[k]? = some e → ∃ l ∈ links,
    e.source = l.a ∧ e.target = l.b ∧ e.length = l.length ∧ e.bidirectional = true
  link (l : Link) : l ∈ links → ∃ e ∈ g.edges,
    e.source = l.a ∧ e.target = l.b ∧ e.length = l.length ∧ e.bidirectional = true

namespace Job

variable {c : BuildSettings} {t : Host} {ms : MarkerRoll} {r : RegionId}

/-- Sites of distinct nodes and sound links are drawn by the network they assemble. -/
theorem draws_of_assemble {ns : List Site} {links : List Link} {speed : Binary32} {g : Network}
    (ids : (ns.map Site.id).Nodup) (sound : Link.Sound (ns.map Site.id) links)
    (hg : Network.assemble ns links speed = .ok g) : g.Draws ns links := by
  obtain ⟨h, hok, hnodes, hedges⟩ := Network.assemble_ok speed ids sound
  rw [hg] at hok
  cases hok
  refine ⟨hnodes, fun k e he => ?_, fun l hl => ?_⟩
  · obtain ⟨l, hl, -, rfl⟩ := (hedges k e).1 he
    exact ⟨l, hl, rfl, rfl, rfl, rfl⟩
  · have filed := (hedges l.ends _).2 ⟨l, hl, rfl, rfl⟩
    refine ⟨(Network.ofNodes (ns.map Site.node)).edgeOfLink speed l, Network.mem_edges.2 ?_,
      rfl, rfl, rfl, rfl⟩
    rw [g.edge_ends _ _ filed]
    exact filed

theorem closeTerritory_ok {j : Job} {found : List Site} {s : Territory} {g : Network}
    (h : Network.assemble found s.links j.settings.speedLimit = .ok g) (report : SurveyReport) :
    (j.closeTerritory found report s).2 = successNotices
      { region := j.region
        network := g
        missing := s.missingSwitchers (.ofNodes found j.settings.anchorRadius)
          j.settings.missingCap.toNat
        survey := report
        processed := j.processed } := by
  unfold closeTerritory
  rw [h]
  rfl

/-- **What a build yields that has found nodes** whose links can be assembled.  All of it is fixed
by the nodes, the track and the report, but for the units that the survey took. -/
theorem notices_found {scope : SurveyScope} {found : List Site} {report : SurveyReport}
    {g : Network}
    (outcome : (Stepwise.finished (Survey.start c t ms r scope)).outcome = .nodes found report)
    (hg : Network.assemble found (Territory.taken t.laid found).links c.speedLimit = .ok g) :
    (start c t ms r scope).conclude.2 = .phase r .exploring :: successNotices
      { region := r
        network := g
        missing := (Territory.taken t.laid found).missingSwitchers (.ofNodes found c.anchorRadius)
          c.missingCap.toNat
        survey := report
        processed := Stepwise.cost (Survey.start c t ms r scope) +
          Stepwise.cost (Territory.start t.laid found) } := by
  have explored : ((start c t ms r scope).ripe.explore found report).ripe =
      { region := r
        settings := c
        host := t
        stage := .exploring found report (Territory.taken t.laid found)
        processed := Stepwise.cost (Survey.start c t ms r scope) +
          Stepwise.cost (Territory.start t.laid found) } := by
    simp [start, ripe, explore, Territory.taken]
  rw [conclude_surveying (s := Survey.start c t ms r scope) rfl, outcome]
  simp only
  rw [conclude_exploring (s := Territory.start t.laid found) rfl, explored]
  exact congrArg (_ :: ·) (closeTerritory_ok hg report)

/-- **A build that has found nodes comes to a network** if their ids are distinct and their anchors
laid: the network that they assemble with the links of their territory. -/
theorem conclude_found {scope : SurveyScope} {found : List Site} {report : SurveyReport}
    (outcome : (Stepwise.finished (Survey.start c t ms r scope)).outcome = .nodes found report)
    (ids : (found.map Site.id).Nodup) (laid : ∀ m ∈ found, ∀ a ∈ m.anchors, a ∈ t.laid) :
    ∃ built, (start c t ms r scope).conclude.2 = .phase r .exploring :: successNotices built ∧
      Network.assemble found (Territory.taken t.laid found).links c.speedLimit =
        .ok built.network := by
  obtain ⟨g, hok, -⟩ := Network.assemble_ok c.speedLimit ids (Territory.sound_links ids laid)
  exact ⟨_, notices_found outcome hok, hok⟩

theorem outcome_whole (c : BuildSettings) (t : Host) (ms : MarkerRoll) (r : RegionId) :
    (Stepwise.finished (Survey.start c t ms r .whole)).outcome =
      .nodes (Sweep.sites c t ms r) (Sweep.report c t ms r) := by
  have surveyed : Stepwise.finished (Survey.start c t ms r .whole) =
      .sweep (Stepwise.finished (Sweep.start c t ms r)) := Survey.finished_sweep _
  rw [surveyed, Survey.outcome, Sweep.outcome_start]

theorem notices_whole (c : BuildSettings) (t : Host) (ms : MarkerRoll) (r : RegionId) :
    ∃ g, Network.assemble (Sweep.sites c t ms r)
        (Territory.taken t.laid (Sweep.sites c t ms r)).links c.speedLimit = .ok g ∧
      (start c t ms r .whole).conclude.2 = .phase r .exploring :: successNotices
        { region := r
          network := g
          missing := (Territory.taken t.laid (Sweep.sites c t ms r)).missingSwitchers
            (.ofNodes (Sweep.sites c t ms r) c.anchorRadius) c.missingCap.toNat
          survey := Sweep.report c t ms r
          processed := Stepwise.cost (Sweep.start c t ms r) +
            Stepwise.cost (Territory.start t.laid (Sweep.sites c t ms r)) } := by
  have sound := Territory.sound_links (Sweep.nodup_ids c t ms r) (Sweep.laid_anchors c t ms r)
  obtain ⟨g, hg, -⟩ := Network.assemble_ok c.speedLimit (Sweep.nodup_ids c t ms r) sound
  have surveyed : Stepwise.cost (Survey.start c t ms r .whole) =
      Stepwise.cost (Sweep.start c t ms r) :=
    Stepwise.cost_map Survey.sweep (fun _ => rfl) (fun _ => rfl) _
  refine ⟨g, hg, ?_⟩
  rw [notices_found (outcome_whole c t ms r) hg, surveyed]

/-- **A build of a whole region always comes to a network**, which draws the nodes that are found
and the links of their territory. -/
theorem conclude_whole (c : BuildSettings) (t : Host) (ms : MarkerRoll) (r : RegionId) :
    ∃ built, (start c t ms r .whole).conclude.2 = .phase r .exploring :: successNotices built ∧
      built.network.Draws (Sweep.sites c t ms r)
        (Territory.taken t.laid (Sweep.sites c t ms r)).links := by
  obtain ⟨g, hg, notices⟩ := notices_whole c t ms r
  exact ⟨_, notices, draws_of_assemble (Sweep.nodup_ids c t ms r)
    (Territory.sound_links (Sweep.nodup_ids c t ms r) (Sweep.laid_anchors c t ms r)) hg⟩

/-- A build of a whole region that has units to spare in its first step ends in it, and tells of a
network. -/
theorem step_whole {b : Allowance} (undated : b.deadline = none)
    (spare : (start c t ms r .whole).cost < b.maxUnits) :
    ((start c t ms r .whole).step b).job.isDone = true ∧ ∃ built, built.region = r ∧
      ((start c t ms r .whole).step b).notices = .phase r .exploring :: successNotices built := by
  have ended : ((start c t ms r .whole).after [b]).isDone = true := isDone_step undated spare
  obtain ⟨built, script, -⟩ := conclude_whole c t ms r
  have told : ((start c t ms r .whole).step b).notices ++ [] = _ := told_eq_of_isDone ended
  rw [List.append_nil, script] at told
  refine ⟨ended, built, ?_, told⟩
  apply region_of_mem_step (j := start c t ms r .whole) (b := b) (n := .success built)
  rw [told]
  simp [successNotices]

/-- **The network of which a build of a whole region tells**, whatever the schedule. -/
theorem draws_of_told {bs : List Allowance} {built : BuiltRegion}
    (h : Notice.success built ∈ (start c t ms r .whole).told bs) :
    built.network.Draws (Sweep.sites c t ms r)
      (Territory.taken t.laid (Sweep.sites c t ms r)).links := by
  obtain ⟨concluded, notices, draws⟩ := conclude_whole c t ms r
  have told := (told_isPrefix bs _).subset h
  rw [notices] at told
  simp only [successNotices, List.mem_cons, List.not_mem_nil, or_false, reduceCtorEq, false_or,
    Notice.success.injEq] at told
  rw [told]
  exact draws

/-- **The edges of such a network have lengths that fit a word of 32 bits**, where such a word can
count the track. -/
theorem lengths_of_told {bs : List Allowance} {built : BuiltRegion}
    (h : Notice.success built ∈ (start c t ms r .whole).told bs)
    (small : t.laid.size ≤ UInt32.size) :
    ∀ e ∈ built.network.edges, e.length < UInt32.size := by
  intro e he
  obtain ⟨l, hl, -, -, length, -⟩ := (draws_of_told h).edge e.ends e (Network.mem_edges.1 he)
  rw [length]
  exact (Territory.lengths_fit (Sweep.nodup_ids c t ms r) (Sweep.laid_anchors c t ms r) small).2 l hl

end Job

end Signalbox
