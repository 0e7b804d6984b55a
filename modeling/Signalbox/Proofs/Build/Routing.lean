import Signalbox.Proofs.Build.Whole
import Signalbox.Proofs.Route.Search

/-!
# Routes follow the track

On the network of a whole region there is a route between two nodes exactly if a chain of nodes
joins them in which each has track connected to that of the next.  Where every node stands on one
cell, a route is a tour over the track, of exactly its length.

* `Network.joins_of_exit`, `Network.exit_of_joins` : hops are links;
* `Network.costOf_le`           : a way that visits no node twice is at most twice the track long;
* `Network.tour_of_way`         : a way is a tour over the track;
* `Network.routes_follow_track` : when there is a route, and what it is on the track.
-/

set_option autoImplicit false

namespace Signalbox

namespace Network

open Territory (taken)

/-- Two nodes adjoin: track that one of them stands on is connected to track that the other stands
on. -/
def Adjoins (g : Network) (t : Host) (radius : UInt32) (x y : NodeId) : Prop :=
  ∃ m n, g.node? x = some m ∧ g.node? y = some n ∧
    ∃ a ∈ t.nearest m.pos radius, ∃ b ∈ t.nearest n.pos radius, t.laid.Connected a b

variable {g : Network} {t : Host} {ns : List Site} {x y n m goal : NodeId} {e : Edge}
  {hops : List Hop} {k : Nat}

section

variable (draws : g.Draws ns (taken t.laid ns).links)
include draws

/-! ## Hops are links -/

theorem joins_of_exit {o : RouteOptions} (h : (e, m) ∈ g.exits o goal n) :
    (taken t.laid ns).Joins n m e.length := by
  obtain ⟨he, ht, -⟩ := mem_exits.1 h
  obtain ⟨⟨a, b, k⟩, hl, hs, hd, hk, -⟩ := draws.edge _ e (mem_edges.1 he)
  simp only at hs hd hk
  rw [hk]
  rcases Edge.target?_eq_some.1 ht with ⟨rfl, rfl⟩ | ⟨-, -, rfl, rfl⟩
  · rw [hs, hd]
    exact Or.inl hl
  · rw [hs, hd]
    exact Or.inr hl

theorem exit_of_joins (h : (taken t.laid ns).Joins n m k) :
    ∃ e, (e, m) ∈ g.exits {} goal n ∧ e.length = k := by
  have open' : m = goal ∨ m ∉ (∅ : Std.ExtTreeSet NodeId) := Or.inr Std.ExtTreeSet.not_mem_empty
  rcases h with h | h
  · obtain ⟨e, he, hs, hd, hk, -⟩ := draws.link _ h
    exact ⟨e, mem_exits.2 ⟨he, Edge.target?_eq_some.2 (Or.inl ⟨hs, hd⟩), open'⟩, hk⟩
  · obtain ⟨e, he, hs, hd, hk, hb⟩ := draws.link _ h
    have hne : e.source ≠ n := by
      intro heq
      exact (g.edge_known _ e (mem_edges.1 he)).1 (heq.trans hd.symm)
    exact ⟨e, mem_exits.2 ⟨he, Edge.target?_eq_some.2 (Or.inr ⟨hne, hb, hd, hs⟩), open'⟩, hk⟩

theorem exists_way_of_joined (goal : NodeId) (h : (taken t.laid ns).Joined k x y) :
    ∃ hops, g.Way {} goal x y hops := by
  induction h with
  | refl => exact ⟨[], .here⟩
  | tail _ hlink ih =>
    obtain ⟨hops, hw⟩ := ih
    obtain ⟨l, -, hj⟩ := hlink
    obtain ⟨e, he, -⟩ := exit_of_joins draws hj
    exact ⟨_, .hop hw he⟩

theorem adjoins_iff {radius : UInt32}
    (near : ∀ m ∈ ns, m.anchors = t.nearest m.node.pos radius) : g.Adjoins t radius x y ↔
    ∃ m ∈ ns, ∃ k ∈ ns, m.id = x ∧ k.id = y ∧
      ∃ a ∈ m.anchors, ∃ b ∈ k.anchors, t.laid.Connected a b := by
  unfold Adjoins node?
  constructor
  · rintro ⟨i, j, hi, hj, a, ha, b, hb, hc⟩
    obtain ⟨m, hm, hmid, rfl⟩ := (draws.node x i).1 hi
    obtain ⟨k, hk, hkid, rfl⟩ := (draws.node y j).1 hj
    exact ⟨m, hm, k, hk, hmid, hkid, a, near m hm ▸ ha, b, near k hk ▸ hb, hc⟩
  · rintro ⟨m, hm, k, hk, hmid, hkid, a, ha, b, hb, hc⟩
    exact ⟨m.node, k.node, (draws.node x _).2 ⟨m, hm, hmid, rfl⟩,
      (draws.node y _).2 ⟨k, hk, hkid, rfl⟩, a, near m hm ▸ ha, b, near k hk ▸ hb, hc⟩

section

variable (ids : (ns.map Site.id).Nodup) (laid : ∀ m ∈ ns, ∀ a ∈ m.anchors, a ∈ t.laid)
include ids laid

/-! ## The length of ways -/

/-- Every node on a way that visits none twice counts its holding for the hop to it and for the hop
from it. -/
theorem costOf_add_holding_le (hw : g.Way {} goal x m hops) :
    RouteOptions.costOf {} hops + (taken t.laid ns).holding m ≤
      2 * total (taken t.laid ns).holding (visits m hops) := by
  induction hw with
  | here =>
    simp only [RouteOptions.costOf_nil, visits, List.map_nil, total_cons, total_nil]
    omega
  | @hop n m e hops hw he ih =>
    have cost : RouteOptions.costOf {} (⟨e, n⟩ :: hops) = e.length + RouteOptions.costOf {} hops :=
      rfl
    have nodes : total (taken t.laid ns).holding (visits m (⟨e, n⟩ :: hops)) =
        (taken t.laid ns).holding m + total (taken t.laid ns).holding (visits n hops) := rfl
    have length := Territory.length_le_holding ids laid (joins_of_exit draws he)
    rw [cost, nodes]
    omega

/-- A way that visits no node twice is no longer than twice the track. -/
theorem costOf_le (hw : g.Way {} goal x m hops) (simple : (visits m hops).Nodup) :
    RouteOptions.costOf {} hops ≤ 2 * t.laid.size := by
  have bound := costOf_add_holding_le draws ids laid hw
  have held := Territory.total_holding_le (s := taken t.laid ns) simple fun c hc =>
    Territory.mem_of_owned ids laid hc
  rw [Territory.track_taken] at held
  omega

/-- **Nodes that links join have a route**, unless the track is larger than any collection. -/
theorem isSome_shortestRoute_of_joined (fits : t.laid.size ≤ maxWord / 2) (hx : x ∈ g.nodeMap)
    (hy : y ∈ g.nodeMap) (hne : x ≠ y) (h : (taken t.laid ns).Joined k x y) :
    (g.shortestRoute {} x y).isSome = true := by
  obtain ⟨hops, hw⟩ := exists_way_of_joined draws y h
  obtain ⟨short, hs, simple⟩ := hw.exists_simple
  have cost := costOf_le draws ids laid hs simple
  refine (isSome_shortestRoute_iff hx hy hne).2 ⟨short, hs, ?_⟩
  have odd : maxWord % 2 = 1 := by decide
  omega

/-! ## Ways on the track -/

/-- **A way is a tour over the track** where every node stands on one cell. -/
theorem tour_of_way {place : NodeId → Cell} (single : ∀ m ∈ ns, m.anchors = [place m.id])
    (hw : g.Way {} goal x m hops) :
    t.laid.Tour ((visits m hops).reverse.map place) (total (fun h => h.edge.length) hops) := by
  induction hw with
  | here => exact .stop (place x)
  | @hop n m e hops hw he ih =>
    obtain ⟨i, hi, j, hj, rfl, rfl, a, ha, b, hb, walk⟩ :=
      Territory.walk_of_joins ids laid (joins_of_exit draws he)
    rw [single i hi, List.mem_singleton] at ha
    rw [single j hj, List.mem_singleton] at hb
    subst ha hb
    have stops : ((visits i.id hops).reverse.map place) =
        (hops.map Hop.origin).reverse.map place ++ [place i.id] := by
      simp [visits]
    rw [stops] at ih
    have extended := ih.extend walk
    have stops' : ((visits j.id (⟨e, i.id⟩ :: hops)).reverse.map place) =
        (hops.map Hop.origin).reverse.map place ++ [place i.id, place j.id] := by
      simp [visits]
    have length : total (fun h : Hop => h.edge.length) (⟨e, i.id⟩ :: hops) =
        total (fun h => h.edge.length) hops + e.length := Nat.add_comm _ _
    rw [stops', length]
    exact extended

variable {radius : UInt32} (near : ∀ m ∈ ns, m.anchors = t.nearest m.node.pos radius)
include near

theorem chain_of_way (hw : g.Way {} goal x m hops) (hne : x ≠ m) :
    Relation.TransGen (g.Adjoins t radius) x m := by
  have adjoins {n m : NodeId} {e : Edge} (he : (e, m) ∈ g.exits {} goal n) :
      g.Adjoins t radius n m := by
    obtain ⟨i, hi, j, hj, hid, hjd, a, ha, b, hb, hw⟩ :=
      Territory.walk_of_joins ids laid (joins_of_exit draws he)
    exact (adjoins_iff draws near).2
      ⟨i, hi, j, hj, hid, hjd, a, ha, b, hb, e.length, hw⟩
  induction hw with
  | here => exact absurd rfl hne
  | @hop n m e hops hw he ih =>
    by_cases hn : x = n
    · subst hn
      exact .single (adjoins he)
    · exact (ih hn).tail (adjoins he)

theorem joined_of_chain (h : Relation.TransGen (g.Adjoins t radius) x y) :
    ∃ k, (taken t.laid ns).Joined k x y := by
  have joined {x y : NodeId} (h : g.Adjoins t radius x y) : ∃ k, (taken t.laid ns).Joined k x y := by
    obtain ⟨m, hm, k, hk, rfl, rfl, a, ha, b, hb, n, hw⟩ := (adjoins_iff draws near).1 h
    exact ⟨n, Territory.joined_of_walk ids laid hm ha hk hb hw⟩
  induction h with
  | single h => exact joined h
  | tail _ h ih =>
    obtain ⟨i, hi⟩ := ih
    obtain ⟨j, hj⟩ := joined h
    exact ⟨max i j, (hi.mono (Nat.le_max_left i j)).trans (hj.mono (Nat.le_max_right i j))⟩

end

end

/-! ## Routes -/

/-- **Routes follow the track.**  On the network of which the build of a whole region tells, there
is a route between two different nodes exactly if a chain of adjoining nodes joins them.  If every
node stands on one cell, its `place`, the route is a tour over the places of its nodes, of as many
steps as it is long.  A track is held in memory, where no collection has more members than half the
largest word. -/
theorem routes_follow_track {c : BuildSettings} {ms : MarkerRoll} {r : RegionId}
    {bs : List Allowance} {built : BuiltRegion} (fits : t.laid.size ≤ maxWord / 2)
    (told : Notice.success built ∈ (Job.start c t ms r .whole).told bs)
    (hx : x ∈ built.network.nodeMap) (hy : y ∈ built.network.nodeMap) (hne : x ≠ y) :
    ((built.network.shortestRoute {} x y).isSome = true ↔
        Relation.TransGen (built.network.Adjoins t c.anchorRadius) x y) ∧
      ∀ place : NodeId → Cell,
        (∀ n ∈ built.network.nodes, t.nearest n.pos c.anchorRadius = [place n.id]) →
          ∀ route, built.network.shortestRoute {} x y = some route →
            t.laid.Tour (route.nodes.map place) route.totalLength := by
  have draws := Job.draws_of_told told
  have ids := Sweep.nodup_ids c t ms r
  have laid := Sweep.laid_anchors c t ms r
  have near : ∀ m ∈ Sweep.sites c t ms r, m.anchors = t.nearest m.node.pos c.anchorRadius :=
    fun m hm => Sweep.anchors_of_mem_sites hm
  refine ⟨⟨fun h => ?_, fun h => ?_⟩, fun place single route h => ?_⟩
  · obtain ⟨hops, hw, -⟩ := (isSome_shortestRoute_iff hx hy hne).1 h
    exact chain_of_way draws ids laid near hw hne
  · obtain ⟨k, hk⟩ := joined_of_chain draws ids laid near h
    exact isSome_shortestRoute_of_joined draws ids laid fits hx hy hne hk
  · obtain ⟨hops, hw, rfl, -⟩ := shortestRoute_spec hne h
    refine tour_of_way draws ids laid (fun m hm => ?_) hw
    have known : m.node ∈ built.network.nodes :=
      mem_nodes.2 ((draws.node m.node.id m.node).2 ⟨m, hm, rfl, rfl⟩)
    rw [near m hm, single m.node known]
    rfl

/-- Two stations on a line of three cells: the route between them is a tour over the line. -/
theorem routes_follow_track_line :
    let line := (Track.empty.insert ⟨0, 64, 0⟩).insert ⟨1, 64, 0⟩ |>.insert ⟨2, 64, 0⟩
    let station (name : String) (x : Int32) : Marker := ⟨⟨name⟩, .station, ⟨x, 65, 0⟩, none, none⟩
    let roll := MarkerRoll.empty.extend ⟨"main"⟩ [station "A" 0, station "B" 2]
    let place (i : NodeId) : Cell := if i = ⟨"A"⟩ then ⟨0, 64, 0⟩ else ⟨2, 64, 0⟩
    ∃ built, Notice.success built ∈ (Job.start {} line roll ⟨"main"⟩ .whole).told [.units 100] ∧
      ∃ route, built.network.shortestRoute {} ⟨"A"⟩ ⟨"B"⟩ = some route ∧
        line.Tour (route.nodes.map place) route.totalLength := by
  intro line station roll place
  obtain ⟨built, notices, draws⟩ := Job.conclude_whole {} line roll ⟨"main"⟩
  have total : (Job.start {} line roll ⟨"main"⟩ .whole).cost = 9 := by decide +kernel
  have done : ((Job.start {} line roll ⟨"main"⟩ .whole).after [.units 100]).isDone = true :=
    Job.isDone_step rfl (by rw [total]; decide)
  have told : Notice.success built ∈
      (Job.start {} line roll ⟨"main"⟩ .whole).told [.units 100] := by
    rw [Job.told_eq_of_isDone done, notices]
    simp [Job.successNotices]
  have sites : Sweep.sites {} line roll ⟨"main"⟩ =
      [⟨(station "A" 0).toNode, [⟨0, 64, 0⟩]⟩, ⟨(station "B" 2).toNode, [⟨2, 64, 0⟩]⟩] := by
    decide +kernel
  rw [sites] at draws
  have first := (draws.node ⟨"A"⟩ (station "A" 0).toNode).2 ⟨_, List.mem_cons_self .., rfl, rfl⟩
  have second := (draws.node ⟨"B"⟩ (station "B" 2).toNode).2
    ⟨_, List.mem_cons_of_mem _ (List.mem_cons_self ..), rfl, rfl⟩
  have known {i : NodeId} {n : Node} (h : built.network.nodeMap[i]? = some n) :
      i ∈ built.network.nodeMap := mem_iff_lookup.2 ⟨n, h⟩
  have walk : line.Walk ⟨0, 64, 0⟩ ⟨2, 64, 0⟩ 2 :=
    .step (.step .here (d := ⟨1, 64, 0⟩) (by decide +kernel)) (by decide +kernel)
  have adjoins : built.network.Adjoins line 2 ⟨"A"⟩ ⟨"B"⟩ :=
    ⟨_, _, first, second, ⟨0, 64, 0⟩, by decide +kernel, ⟨2, 64, 0⟩, by decide +kernel, 2, walk⟩
  have single : ∀ n ∈ built.network.nodes, (line : Host).nearest n.pos 2 = [place n.id] := by
    intro n hn
    obtain ⟨m, hm, -, rfl⟩ := (draws.node n.id n).1 (mem_nodes.1 hn)
    clear hn
    revert m
    decide +kernel
  have follows := routes_follow_track (by decide +kernel) told (known first) (known second)
    (by decide)
  obtain ⟨route, hroute⟩ := Option.isSome_iff_exists.1 (follows.1.2 (.single adjoins))
  exact ⟨built, told, route, hroute, follows.2 place single route hroute⟩

end Network

end Signalbox
