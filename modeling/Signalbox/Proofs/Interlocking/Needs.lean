import Signalbox.Interlocking.Resource

/-!
# What edges and routes need

A train that uses an edge needs the edge itself and the junctions under its switchers; along a route
it needs what the edges of the route need, if the network has them all.

* `Network.mem_resourcesOfEdge`           : what an edge needs;
* `Network.resourcesOfRoute_eq_ok_iff`    : when a route is resolved;
* `Network.resourcesOfRoute_eq_error_iff` : when it is refused, and over which of its edges;
* `Network.mem_resourcesOfRoute`          : what a route needs.
-/

set_option autoImplicit false

namespace Signalbox

namespace Network

variable {g : Network}

/-! ## Edges -/

/-- One of the ends of an edge is a switcher at this cell. -/
def SwitchesAt (g : Network) (e : Edge) (c : Cell) : Prop :=
  ∃ n, (g.node? e.source = some n ∨ g.node? e.target = some n) ∧ n.isSwitcher = true ∧ n.pos = c

/-- **What an edge needs**: itself, and the junctions under its switchers. -/
theorem mem_resourcesOfEdge {e : Edge} {x : Resource} :
    x ∈ g.resourcesOfEdge e ↔
      x = .ofEnds e.ends ∨ ∃ c, x = .ofJunction c ∧ g.SwitchesAt e c := by
  have junction (i : NodeId) : g.junctionAt? i = some x ↔
      ∃ n, g.node? i = some n ∧ n.isSwitcher = true ∧ x = .ofJunction n.pos := by
    unfold junctionAt?
    cases g.node? i with
    | none => simp
    | some n => by_cases hn : n.isSwitcher = true <;> simp [hn, eq_comm (b := x)]
  simp only [resourcesOfEdge, List.mem_cons, List.mem_filterMap, List.not_mem_nil, or_false,
    exists_eq_or_imp, exists_eq_left, junction]
  refine or_congr_right ⟨?_, ?_⟩
  · rintro (⟨n, stands, switcher, rfl⟩ | ⟨n, stands, switcher, rfl⟩)
    · exact ⟨n.pos, rfl, n, Or.inl stands, switcher, rfl⟩
    · exact ⟨n.pos, rfl, n, Or.inr stands, switcher, rfl⟩
  · rintro ⟨-, rfl, n, stands | stands, switcher, rfl⟩
    · exact Or.inl ⟨n, stands, switcher, rfl⟩
    · exact Or.inr ⟨n, stands, switcher, rfl⟩

theorem ofJunction_mem_resourcesOfEdge {e : Edge} {c : Cell} (h : g.SwitchesAt e c) :
    .ofJunction c ∈ g.resourcesOfEdge e := mem_resourcesOfEdge.2 (Or.inr ⟨c, rfl, h⟩)

/-! ## Routes -/

theorem edgesNamed_eq_ok_iff {ks : List Ends} {es : List Edge} :
    g.edgesNamed ks = .ok es ↔ ks.map g.edgeWith? = es.map some := by
  induction ks generalizing es with
  | nil => cases es <;> simp [edgesNamed]
  | cons k ks ih =>
    rw [edgesNamed, List.map_cons]
    cases found : g.edgeWith? k with
    | none => cases es <;> simp
    | some e =>
      cases es with
      | nil => cases g.edgesNamed ks <;> simp [Except.map]
      | cons d ds =>
        rw [List.map_cons, List.cons.injEq, ← ih, Option.some.injEq]
        cases g.edgesNamed ks <;> simp [Except.map]

theorem edgesNamed_eq_error_iff {ks : List Ends} {f : RouteFault} :
    g.edgesNamed ks = .error f ↔ ∃ before k after, ks = before ++ k :: after ∧
      (∀ j ∈ before, ∃ e, g.edgeWith? j = some e) ∧ g.edgeWith? k = none ∧ f = .unknownEdge k := by
  induction ks with
  | nil => simp [edgesNamed]
  | cons j ks ih =>
    rw [edgesNamed]
    cases found : g.edgeWith? j with
    | none =>
      constructor
      · rintro ⟨⟩
        exact ⟨[], j, ks, rfl, nofun, found, rfl⟩
      · rintro ⟨before, k, after, parts, known, -, rfl⟩
        cases before with
        | nil =>
          cases parts
          rfl
        | cons i before =>
          cases parts
          obtain ⟨e, he⟩ := known j (List.mem_cons_self ..)
          rw [found] at he
          cases he
    | some e =>
      have later : (g.edgesNamed ks).map (e :: ·) = .error f ↔ g.edgesNamed ks = .error f := by
        cases g.edgesNamed ks <;> simp [Except.map]
      simp only [later, ih]
      constructor
      · rintro ⟨before, k, after, rfl, known, missing, rfl⟩
        exact ⟨j :: before, k, after, rfl, List.forall_mem_cons.2 ⟨⟨e, found⟩, known⟩, missing, rfl⟩
      · rintro ⟨before, k, after, parts, known, missing, rfl⟩
        cases before with
        | nil =>
          cases parts
          rw [found] at missing
          cases missing
        | cons i before =>
          cases parts
          exact ⟨before, k, after, rfl, fun i hi => known i (List.mem_cons_of_mem _ hi), missing, rfl⟩

/-- A route is resolved where each of its steps names an edge. -/
theorem resourcesOfRoute_eq_ok_iff {p : Route} {rs : List Resource} :
    g.resourcesOfRoute p = .ok rs ↔ ∃ es : List Edge, p.edges.map g.edgeWith? = es.map some ∧
      rs = (es.flatMap g.resourcesOfEdge).eraseDups := by
  simp only [← edgesNamed_eq_ok_iff, resourcesOfRoute]
  cases g.edgesNamed p.edges <;> simp [Except.map, eq_comm]

/-- A route is refused at its first step that names no edge. -/
theorem resourcesOfRoute_eq_error_iff {p : Route} {f : RouteFault} :
    g.resourcesOfRoute p = .error f ↔ ∃ before k after, p.edges = before ++ k :: after ∧
      (∀ j ∈ before, ∃ e, g.edgeWith? j = some e) ∧ g.edgeWith? k = none ∧ f = .unknownEdge k := by
  rw [← edgesNamed_eq_error_iff, resourcesOfRoute]
  cases g.edgesNamed p.edges <;> simp [Except.map]

/-- **What a route needs**: the resources of its edges. -/
theorem mem_resourcesOfRoute {p : Route} {rs : List Resource} (h : g.resourcesOfRoute p = .ok rs)
    {x : Resource} :
    x ∈ rs ↔ ∃ k ∈ p.edges, ∃ e, g.edgeWith? k = some e ∧ x ∈ g.resourcesOfEdge e := by
  obtain ⟨es, named, rfl⟩ := resourcesOfRoute_eq_ok_iff.1 h
  have mem (e : Edge) : e ∈ es ↔ ∃ k ∈ p.edges, g.edgeWith? k = some e := by
    rw [← List.mem_map, named]
    simp
  simp only [List.mem_eraseDups, List.mem_flatMap, mem]
  constructor
  · rintro ⟨e, ⟨k, hk, found⟩, hx⟩
    exact ⟨k, hk, e, found, hx⟩
  · rintro ⟨k, hk, e, found, hx⟩
    exact ⟨e, ⟨k, hk, found⟩, hx⟩

theorem ofEnds_mem_resourcesOfRoute {p : Route} {rs : List Resource}
    (h : g.resourcesOfRoute p = .ok rs) {k : Ends} (hk : k ∈ p.edges) : .ofEnds k ∈ rs := by
  obtain ⟨es, named, -⟩ := resourcesOfRoute_eq_ok_iff.1 h
  have found : g.edgeWith? k ∈ es.map some := by
    rw [← named]
    exact List.mem_map_of_mem hk
  obtain ⟨e, -, found⟩ := List.mem_map.1 found
  refine (mem_resourcesOfRoute h).2 ⟨k, hk, e, found.symm, ?_⟩
  rw [resourcesOfEdge, g.edge_ends k e found.symm]
  exact List.mem_cons_self ..

end Network

end Signalbox
