import Mathlib.Data.Set.List
import Signalbox.Proofs.Interlocking.Names
import Signalbox.Proofs.Occurrences
import Signalbox.Proofs.Route.Shortest

/-!
# Resources along a route

The edges of a route are looked up by their ends, one after the other, up to the first that the network
does not have.  If it has them all, every resource is listed where it occurs first in travel order.  A
route that answers a query names edges of the network only, and its nodes are the ends of these edges;
so none of its switchers is left out, be it where the route starts or where it ends.

* `Network.ofJunction_mem_needsAlong`       : which junctions edges need;
* `Network.Permitted.mem_nodes_iff_touches` : the nodes of a walk are the ends of its edges;
* `Network.Permitted.listsJunctions`        : the junctions listed for a walk are those at its nodes;
* `Network.resources_along_route`           : what is listed for a route, and when it is refused.
-/

set_option autoImplicit false

namespace Signalbox

namespace Network

variable {g : Network} {o : RouteOptions} {goal origin n m i : NodeId} {e : Edge} {k : Ends}
  {ns : List NodeId} {es : List Edge} {p : Route} {c : Cell} {r : Resource} {rs : List Resource}

/-! ## Edges by name -/

/-- The network has an edge with these ends. -/
def Has (g : Network) (k : Ends) : Prop := ∃ e ∈ g.edges, e.ends = k

theorem edgeWith?_eq_some_iff : g.edgeWith? k = some e ↔ e ∈ g.edges ∧ e.ends = k := by
  rw [mem_edges]
  constructor
  · intro found
    have ends := g.edge_ends k e found
    exact ⟨ends ▸ found, ends⟩
  · rintro ⟨filed, rfl⟩
    exact filed

theorem has_iff : g.Has k ↔ ∃ e, g.edgeWith? k = some e := by
  simp only [edgeWith?_eq_some_iff, Has]

theorem not_has_iff : ¬ g.Has k ↔ g.edgeWith? k = none := by
  rw [has_iff, ← Option.isSome_iff_exists, Option.not_isSome_iff_eq_none]

theorem map_edgeWith?_iff {ks : List Ends} :
    ks.map g.edgeWith? = es.map some ↔ (∀ e ∈ es, e ∈ g.edges) ∧ es.map Edge.ends = ks := by
  induction ks generalizing es with
  | nil =>
    rw [List.map_nil, eq_comm, List.map_eq_nil_iff, List.map_eq_nil_iff, and_iff_right_of_imp]
    rintro rfl
    exact nofun
  | cons k ks ih =>
    cases es with
    | nil => simp
    | cons e es =>
      rw [List.map_cons, List.map_cons, List.map_cons, List.cons.injEq, List.cons.injEq, ih,
        edgeWith?_eq_some_iff, List.forall_mem_cons]
      exact and_and_and_comm

/-- The ends that come first along the route of those that no edge of the network has. -/
def FirstMissing (g : Network) (p : Route) (k : Ends) : Prop :=
  ∃ before after, p.edges = before ++ k :: after ∧ (∀ j ∈ before, g.Has j) ∧ ¬ g.Has k

/-! ## What is needed along edges -/

/-- The nodes at both ends of an edge that are switchers. -/
def switchersOf (g : Network) (e : Edge) : List Node :=
  ([e.source, e.target].filterMap g.node?).filter Node.isSwitcher

/-- What edges need, one after the other: each itself, and then the junctions under its switchers. -/
def needsAlong (g : Network) (es : List Edge) : List Resource :=
  es.flatMap fun e => .ofEnds e.ends :: (g.switchersOf e).map fun n => .ofJunction n.pos

theorem flatMap_resourcesOfEdge (es : List Edge) :
    es.flatMap g.resourcesOfEdge = g.needsAlong es := by
  have junctions (is : List NodeId) : is.filterMap g.junctionAt? =
      ((is.filterMap g.node?).filter Node.isSwitcher).map fun n => .ofJunction n.pos := by
    induction is with
    | nil => rfl
    | cons i is ih =>
      cases found : g.node? i with
      | none => simp [junctionAt?, found, ih]
      | some n => by_cases switcher : n.isSwitcher = true <;> simp [junctionAt?, found, switcher, ih]
  unfold needsAlong
  refine congrArg (es.flatMap ·) (funext fun e => ?_)
  rw [resourcesOfEdge, junctions, switchersOf]

/-- The junctions among what edges need are those under their switchers. -/
theorem ofJunction_mem_needsAlong :
    .ofJunction c ∈ g.needsAlong es ↔ ∃ e ∈ es, g.SwitchesAt e c := by
  rw [← flatMap_resourcesOfEdge, List.mem_flatMap]
  refine exists_congr fun e => and_congr_right fun _ => ?_
  rw [mem_resourcesOfEdge, or_iff_right fun same => Resource.ofEnds_ne_ofJunction same.symm]
  simp only [Resource.ofJunction_eq_iff, exists_eq_left']

theorem exists_ofJunction_eq (h : r ∈ g.needsAlong es) (kind : r.kind = .junction) :
    ∃ c, Resource.ofJunction c = r := by
  rw [← flatMap_resourcesOfEdge, List.mem_flatMap] at h
  obtain ⟨e, -, needed⟩ := h
  rcases mem_resourcesOfEdge.1 needed with rfl | ⟨c, rfl, -⟩
  · cases kind
  · exact ⟨c, rfl⟩

/-! ## Nodes along a walk -/

theorem touches_iff_of_target? (h : e.target? n = some m) : e.touches i = true ↔ i = n ∨ i = m := by
  rw [Edge.touches, Bool.or_eq_true, decide_eq_true_iff, decide_eq_true_iff, eq_comm (a := i),
    eq_comm (a := i)]
  rcases Edge.target?_eq_some.1 h with ⟨rfl, rfl⟩ | ⟨-, -, rfl, rfl⟩
  · rfl
  · exact or_comm

theorem Permitted.mem_nodes_iff (h : g.Permitted o goal n ns es) :
    i ∈ ns ↔ i = n ∨ ∃ e ∈ es, e.touches i = true := by
  induction h with
  | here => simp
  | go _ ht _ _ ih =>
    rw [List.mem_cons, ih, List.exists_mem_cons_iff, touches_iff_of_target? ht, or_assoc, or_self_left]

theorem Permitted.mem_nodes_iff_touches (h : g.Permitted o goal n ns es) (goes : es ≠ []) :
    i ∈ ns ↔ ∃ e ∈ es, e.touches i = true := by
  rw [h.mem_nodes_iff, or_iff_right_of_imp]
  rintro rfl
  cases h with
  | here => exact absurd rfl goes
  | go _ ht _ _ => exact ⟨_, List.mem_cons_self .., (touches_iff_of_target? ht).2 (Or.inl rfl)⟩

/-- One of the nodes of the route is a switcher at this cell. -/
def SwitcherAlong (g : Network) (p : Route) (c : Cell) : Prop :=
  ∃ i ∈ p.nodes, ∃ n, g.node? i = some n ∧ n.isSwitcher = true ∧ n.pos = c

/-- The switchers at the nodes of a walk are those at the ends of its edges. -/
theorem Permitted.switcherAlong_iff (h : g.Permitted o goal n p.nodes es) (goes : es ≠ []) :
    g.SwitcherAlong p c ↔ ∃ e ∈ es, g.SwitchesAt e c := by
  constructor
  · rintro ⟨i, hi, m, stands, switcher, pos⟩
    obtain ⟨e, he, touches⟩ := (h.mem_nodes_iff_touches goes).1 hi
    rw [Edge.touches, Bool.or_eq_true, decide_eq_true_iff, decide_eq_true_iff] at touches
    refine ⟨e, he, m, ?_, switcher, pos⟩
    exact touches.imp (fun source : e.source = i => source ▸ stands)
      fun target : e.target = i => target ▸ stands
  · rintro ⟨e, he, m, stands, switcher, pos⟩
    have stop {j : NodeId} (touches : e.touches j = true) : j ∈ p.nodes :=
      (h.mem_nodes_iff_touches goes).2 ⟨e, he, touches⟩
    rcases stands with source | target
    · exact ⟨e.source, stop (by simp [Edge.touches]), m, source, switcher, pos⟩
    · exact ⟨e.target, stop (by simp [Edge.touches]), m, target, switcher, pos⟩

/-! ## Routes -/

/-- A listing has the junctions of a route, each once. -/
structure ListsJunctions (g : Network) (p : Route) (rs : List Resource) (cs : List Cell) : Prop where
  listed : rs.filter (fun r => r.kind = .junction) = cs.map .ofJunction
  once : cs.Nodup
  mem_iff (c : Cell) : c ∈ cs ↔ g.SwitcherAlong p c

/-- What a walk needs, without repetitions, has the junctions at its nodes. -/
theorem Permitted.listsJunctions (h : g.Permitted o goal n p.nodes es) (goes : es ≠ []) :
    ∃ cs, g.ListsJunctions p (g.needsAlong es).eraseDups cs := by
  have kinds : ∀ r ∈ (g.needsAlong es).eraseDups.filter (fun r => r.kind = .junction),
      r ∈ Set.range Resource.ofJunction := by
    intro r hr
    obtain ⟨mem, kind⟩ := List.mem_filter.1 hr
    exact exists_ofJunction_eq (List.mem_eraseDups.1 mem) (of_decide_eq_true kind)
  obtain ⟨cs, listed⟩ : (g.needsAlong es).eraseDups.filter (fun r => r.kind = .junction) ∈
      Set.range (List.map Resource.ofJunction) := by
    rw [Set.range_list_map]
    exact kinds
  have nodup : (cs.map Resource.ofJunction).Nodup := by
    rw [listed]
    exact (firstOccurrences_iff.2 rfl).nodup.filter _
  refine ⟨cs, listed.symm, nodup.of_map _, fun c => ?_⟩
  have injective : Function.Injective Resource.ofJunction := fun c d => Resource.ofJunction_eq_iff.1
  calc c ∈ cs ↔ .ofJunction c ∈ cs.map Resource.ofJunction :=
        (List.mem_map_of_injective injective).symm
    _ ↔ .ofJunction c ∈ (g.needsAlong es).eraseDups := by
        rw [listed, List.mem_filter]
        exact and_iff_left (decide_eq_true rfl)
    _ ↔ g.SwitcherAlong p c := by
        rw [List.mem_eraseDups, ofJunction_mem_needsAlong, h.switcherAlong_iff goes]

/-- **Resources along a route.**  A route is refused at the first of its edges that the network does
not have.  If the network has them all, then each edge and the junctions under its switchers are listed
where they occur first in travel order.  A route that answers a query and goes somewhere is never
refused, and the junctions listed for it are those at the switchers among its nodes, each once. -/
theorem resources_along_route (g : Network) :
    (∀ (p : Route) (f : RouteFault), g.resourcesOfRoute p = .error f ↔
      ∃ k, g.FirstMissing p k ∧ f = .unknownEdge k) ∧
    (∀ (p : Route) (rs : List Resource), g.resourcesOfRoute p = .ok rs ↔
      ∃ es, (∀ e ∈ es, e ∈ g.edges) ∧ es.map Edge.ends = p.edges ∧
        FirstOccurrences (g.needsAlong es) rs) ∧
    ∀ (o : RouteOptions) (origin goal : NodeId) (p : Route),
      g.shortestRoute o origin goal = some p → p.isTrivial = false →
        ∃ rs cs, g.resourcesOfRoute p = .ok rs ∧ g.ListsJunctions p rs cs := by
  refine ⟨fun p f => ?refused, fun p rs => ?listed, fun o origin goal p answer goes => ?answers⟩
  case refused =>
    rw [resourcesOfRoute_eq_error_iff]
    constructor
    · rintro ⟨before, k, after, parts, known, missing, rfl⟩
      have has (j : Ends) (hj : j ∈ before) : g.Has j := has_iff.2 (known j hj)
      exact ⟨k, ⟨before, after, parts, has, not_has_iff.2 missing⟩, rfl⟩
    · rintro ⟨k, ⟨before, after, parts, has, missing⟩, rfl⟩
      have known (j : Ends) (hj : j ∈ before) : ∃ e, g.edgeWith? j = some e := has_iff.1 (has j hj)
      exact ⟨before, k, after, parts, known, not_has_iff.1 missing, rfl⟩
  case listed =>
    simp only [resourcesOfRoute_eq_ok_iff, map_edgeWith?_iff, flatMap_resourcesOfEdge,
      firstOccurrences_iff, and_assoc]
  case answers =>
    obtain ⟨ho, hg⟩ := known_of_shortestRoute answer
    obtain ⟨es, walk, names, -⟩ := (answers_of_shortestRoute ho hg answer).walk
    have travels : es ≠ [] := by
      rintro rfl
      simp [Route.isTrivial, names] at goes
    obtain ⟨cs, junctions⟩ := walk.listsJunctions travels
    refine ⟨_, cs, resourcesOfRoute_eq_ok_iff.2 ⟨es, ?_, rfl⟩, ?_⟩
    · exact map_edgeWith?_iff.2 ⟨walk.mem_edges, names.symm⟩
    · rw [flatMap_resourcesOfEdge]
      exact junctions

/-- A route that uses an edge against its direction and then a one-way edge, and ends at a switcher:
the junction there is listed too. -/
theorem resources_along_route_to_switcher :
    let node (name : String) (kind : NodeKind) (x : Int32) : Addition :=
      .node ⟨⟨name⟩, kind, ⟨x, 64, 0⟩, none, none⟩
    let edge (a b : String) (bidirectional : Bool) : Addition := .edge
      { source := ⟨a⟩, target := ⟨b⟩, length := 5, speedLimit := ⟨1090519040⟩, bidirectional }
    let g := made [node "A" .station 0, node "S" .switcher 5, node "T" .switcher 9,
      edge "S" "A" true, edge "S" "T" false]
    ∃ p rs, g.shortestRoute {} ⟨"A"⟩ ⟨"T"⟩ = some p ∧ p.isTrivial = false ∧
      g.resourcesOfRoute p = .ok rs ∧ .ofJunction ⟨9, 64, 0⟩ ∈ rs := by
  intro node edge g
  have answer : g.shortestRoute {} ⟨"A"⟩ ⟨"T"⟩ =
      some ⟨[⟨"A"⟩, ⟨"S"⟩, ⟨"T"⟩], [⟨⟨"A"⟩, ⟨"S"⟩⟩, ⟨⟨"S"⟩, ⟨"T"⟩⟩], 10, 10⟩ := by decide +kernel
  obtain ⟨rs, cs, resolved, junctions⟩ := (resources_along_route g).2.2 {} _ _ _ answer rfl
  refine ⟨_, rs, answer, rfl, resolved, ?_⟩
  have switcher : (⟨9, 64, 0⟩ : Cell) ∈ cs := by
    rw [junctions.mem_iff]
    exact ⟨⟨"T"⟩, by simp, ⟨⟨"T"⟩, .switcher, ⟨9, 64, 0⟩, none, none⟩, by decide +kernel, rfl, rfl⟩
  have mem : Resource.ofJunction ⟨9, 64, 0⟩ ∈ rs.filter fun r => r.kind = .junction := by
    rw [junctions.listed]
    exact List.mem_map_of_mem switcher
  exact (List.mem_filter.1 mem).1

end Network

end Signalbox
