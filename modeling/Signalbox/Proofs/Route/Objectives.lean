import Signalbox.Proofs.Network.History
import Signalbox.Proofs.Route.Shortest

/-!
# Objectives

Which walks a query permits depends on the nodes to be avoided alone; an objective only says what the
walks cost.  A walk that costs the largest word counts as none, since that word also marks what has
not been reached.  A query by length finds a route wherever there is a permitted walk, because the
length of a walk without repeated nodes is less.  A travel time may be the largest word, though, and
travel times may come to that together, so that a query by travel time finds nothing where the goal
can only be reached that slowly.

* `Network.Permitted.of_avoid`       : the objective does not matter for what is permitted;
* `Network.shortestRoute_eq_none_iff_outOfReach` : when a query finds nothing;
* `Network.objectives_agree_iff`     : when queries find a route under both objectives or neither;
* `Network.slow_edge_hides_neighbor` : an edge over which only a query by length leads.
-/

set_option autoImplicit false

namespace Signalbox

namespace Network

variable {g : Network} {o p : RouteOptions} {avoid : Std.ExtTreeSet NodeId}
  {goal origin n : NodeId} {ns : List NodeId} {es : List Edge} {most : Nat}

/-! ## Permitted walks -/

namespace Permitted

theorem of_avoid (h : g.Permitted o goal n ns es) (same : o.avoid = p.avoid) :
    g.Permitted p goal n ns es := by
  induction h with
  | here => exact .here
  | go he ht hok _ ih => exact .go he ht (same ▸ hok) ih

theorem exists_simple (h : g.Permitted o goal origin ns es) :
    ∃ ns es, g.Permitted o goal origin ns es ∧ ns.Nodup := by
  obtain ⟨hops, way, -⟩ := h.exists_way .here
  obtain ⟨short, way, simple⟩ := way.exists_simple
  have walk := of_way way .here
  rw [← List.reverse_cons] at walk
  exact ⟨_, _, walk, List.nodup_reverse.2 simple⟩

theorem known_ends (h : g.Permitted o goal origin ns es) (hne : origin ≠ goal) :
    origin ∈ g.nodeMap ∧ goal ∈ g.nodeMap := by
  induction h with
  | here => exact absurd rfl hne
  | @go n m e ns es he ht _ _ ih =>
    obtain ⟨left, entered, -⟩ := known_of_target? he ht
    refine ⟨left, ?_⟩
    by_cases hm : m = goal
    · exact hm ▸ entered
    · exact (ih hm).2

/-- Where no edge costs so much that one for every hop comes to the largest word, every goal that can
be walked to is reached for less. -/
theorem exists_cheap (h : g.Permitted o goal origin ns es) (hg : goal ∈ g.nodeMap)
    (edges : ∀ e ∈ g.edges, o.objective.cost e ≤ most) (room : (g.nodeCount - 1) * most < maxWord) :
    ∃ ns es, g.Permitted o goal origin ns es ∧ total o.objective.cost es < maxWord := by
  obtain ⟨ns, es, walk, simple⟩ := h.exists_simple
  exact ⟨ns, es, walk, Nat.lt_of_le_of_lt (walk.total_le hg simple edges) room⟩

end Permitted

/-! ## Routes that are found -/

/-- The goal can be walked to, but every permitted walk costs the largest word or more. -/
structure OutOfReach (g : Network) (o : RouteOptions) (origin goal : NodeId) : Prop where
  walked : ∃ ns es, g.Permitted o goal origin ns es
  costly : ∀ ns es, g.Permitted o goal origin ns es → maxWord ≤ total o.objective.cost es

theorem OutOfReach.ne (h : g.OutOfReach o origin goal) : origin ≠ goal := by
  rintro rfl
  have none : maxWord ≤ 0 := h.costly _ _ .here
  exact absurd none (by decide)

theorem OutOfReach.known (h : g.OutOfReach o origin goal) : origin ∈ g.nodeMap ∧ goal ∈ g.nodeMap := by
  obtain ⟨ns, es, walk⟩ := h.walked
  exact walk.known_ends h.ne

/-- Nothing is out of reach where one of the dearest edges for every hop comes to less than the largest
word. -/
theorem not_outOfReach {objective : Objective} (edges : ∀ e ∈ g.edges, objective.cost e ≤ most)
    (room : (g.nodeCount - 1) * most < maxWord) :
    ¬ g.OutOfReach ⟨objective, avoid⟩ origin goal := by
  intro h
  obtain ⟨ns, es, walk⟩ := h.walked
  obtain ⟨ns, es, walk, cheap⟩ := walk.exists_cheap h.known.2 edges room
  exact Nat.not_lt.2 (h.costly ns es walk) cheap

/-- No goal is too long a way off: a walk without repeated nodes has a length that fits a word. -/
theorem not_outOfReach_byLength (lengths : ∀ e ∈ g.edges, e.length < UInt32.size)
    (nodes : g.nodeCount ≤ UInt32.size + 1) : ¬ g.OutOfReach ⟨.length, avoid⟩ origin goal := by
  have few : (g.nodeCount - 1) * UInt32.size.pred ≤ UInt32.size * UInt32.size.pred :=
    Nat.mul_le_mul_right _ (by omega)
  have square : UInt32.size * UInt32.size.pred < maxWord := by decide
  exact not_outOfReach (fun e he => Nat.le_pred_of_lt (lengths e he)) (Nat.lt_of_le_of_lt few square)

/-- **A query finds nothing** exactly if an end is unknown, or no walk to the goal is permitted, or the
goal is out of reach. -/
theorem shortestRoute_eq_none_iff_outOfReach :
    g.shortestRoute o origin goal = none ↔
      origin ∉ g.nodeMap ∨ goal ∉ g.nodeMap ∨ (∀ ns es, ¬ g.Permitted o goal origin ns es) ∨
        g.OutOfReach o origin goal := by
  by_cases known : origin ∈ g.nodeMap ∧ goal ∈ g.nodeMap
  · rw [shortestRoute_eq_none_iff known.1 known.2, or_iff_right (not_not.2 known.1),
      or_iff_right (not_not.2 known.2)]
    constructor
    · intro costly
      by_cases walked : ∃ ns es, g.Permitted o goal origin ns es
      · exact Or.inr ⟨walked, costly⟩
      · exact Or.inl fun ns es walk => walked ⟨ns, es, walk⟩
    · rintro (none | late) ns es walk
      · exact absurd walk (none ns es)
      · exact late.costly ns es walk
  · refine iff_of_true (shortestRoute_unknown o known) ?_
    rw [← or_assoc]
    exact Or.inl (Decidable.not_and_iff_or_not.1 known)

theorem OutOfReach.of_none (h : g.OutOfReach o origin goal) (same : o.avoid = p.avoid)
    (none : g.shortestRoute p origin goal = none) : g.OutOfReach p origin goal := by
  obtain ⟨ns, es, walk⟩ := h.walked
  rcases shortestRoute_eq_none_iff_outOfReach.1 none with unknown | unknown | no | late
  · exact absurd h.known.1 unknown
  · exact absurd h.known.2 unknown
  · exact absurd (walk.of_avoid same) (no ns es)
  · exact late

/-- **An objective chooses among routes, and hides one only if the goal is out of its reach.**  A query
finds nothing exactly if an end is unknown, or no walk to the goal is permitted, or the goal is out of
reach.  So queries under the two objectives find a route both or neither exactly if the goal is out of
reach for both or neither.  It is not out of reach where one of the dearest edges for every hop comes
to less than the largest word; so it never is by length, as long as the nodes can be numbered by half
words. -/
theorem objectives_agree_iff (g : Network) (avoid : Std.ExtTreeSet NodeId) (origin goal : NodeId) :
    (∀ objective : Objective, g.shortestRoute ⟨objective, avoid⟩ origin goal = none ↔
      origin ∉ g.nodeMap ∨ goal ∉ g.nodeMap ∨
        (∀ ns es, ¬ g.Permitted ⟨objective, avoid⟩ goal origin ns es) ∨
        g.OutOfReach ⟨objective, avoid⟩ origin goal) ∧
    (((g.shortestRoute ⟨.travelTime, avoid⟩ origin goal).isSome = true ↔
        (g.shortestRoute ⟨.length, avoid⟩ origin goal).isSome = true) ↔
      (g.OutOfReach ⟨.travelTime, avoid⟩ origin goal ↔ g.OutOfReach ⟨.length, avoid⟩ origin goal)) ∧
    (∀ (objective : Objective) (dearest : Nat), (∀ e ∈ g.edges, objective.cost e ≤ dearest) →
      (g.nodeCount - 1) * dearest < maxWord → ¬ g.OutOfReach ⟨objective, avoid⟩ origin goal) ∧
    ((∀ e ∈ g.edges, e.length < UInt32.size) → g.nodeCount ≤ UInt32.size + 1 →
      ¬ g.OutOfReach ⟨.length, avoid⟩ origin goal) := by
  refine ⟨fun _ => shortestRoute_eq_none_iff_outOfReach, ?agree, fun _ _ => not_outOfReach,
    not_outOfReach_byLength⟩
  rw [Option.isSome_iff_ne_none, Option.isSome_iff_ne_none, ne_eq, ne_eq, not_iff_not]
  constructor
  · intro agree
    have unfound {objective : Objective} (h : g.OutOfReach ⟨objective, avoid⟩ origin goal) :
        g.shortestRoute ⟨objective, avoid⟩ origin goal = none :=
      shortestRoute_eq_none_iff_outOfReach.2 (Or.inr (Or.inr (Or.inr h)))
    exact ⟨fun late => late.of_none rfl (agree.1 (unfound late)),
      fun late => late.of_none rfl (agree.2 (unfound late))⟩
  · intro agree
    have walks : (∀ ns es, ¬ g.Permitted ⟨.travelTime, avoid⟩ goal origin ns es) ↔
        ∀ ns es, ¬ g.Permitted ⟨.length, avoid⟩ goal origin ns es :=
      ⟨fun no ns es walk => no ns es (walk.of_avoid rfl),
        fun no ns es walk => no ns es (walk.of_avoid rfl)⟩
    rw [shortestRoute_eq_none_iff_outOfReach, shortestRoute_eq_none_iff_outOfReach, walks, agree]

/-- The way round is found under both objectives, although the direct edge is shorter and takes the
largest word of milliseconds. -/
theorem objectives_agree_iff_way_round :
    let station (name : String) : Addition := .node ⟨⟨name⟩, .station, ⟨0, 64, 0⟩, none, none⟩
    let edge (a b : String) (length : Nat) (speed : UInt32) : Edge :=
      { source := ⟨a⟩, target := ⟨b⟩, length, speedLimit := ⟨speed⟩ }
    let g := made [station "A", station "B", station "C", .edge (edge "A" "B" 1 1),
      .edge (edge "A" "C" 9 1090519040), .edge (edge "C" "B" 9 1090519040)]
    (∀ e ∈ g.edges, e.length < UInt32.size) ∧ g.nodeCount ≤ UInt32.size + 1 ∧
      (edge "A" "B" 1 1).travelTime = maxWord ∧
      ((g.shortestRoute ⟨.travelTime, ∅⟩ ⟨"A"⟩ ⟨"B"⟩).isSome = true ↔
        (g.shortestRoute ⟨.length, ∅⟩ ⟨"A"⟩ ⟨"B"⟩).isSome = true) := by
  intro station edge g
  have lengths : ∀ e ∈ g.edges, e.length < UInt32.size := by decide +kernel
  have nodes : g.nodeCount ≤ UInt32.size + 1 := by decide +kernel
  have first : edge "A" "C" 9 1090519040 ∈ g.edges := by decide +kernel
  have second : edge "C" "B" 9 1090519040 ∈ g.edges := by decide +kernel
  have walk : g.Permitted ⟨.length, ∅⟩ ⟨"B"⟩ ⟨"A"⟩ [⟨"A"⟩, ⟨"C"⟩, ⟨"B"⟩]
      [edge "A" "C" 9 1090519040, edge "C" "B" 9 1090519040] :=
    .go first (by decide) (Or.inr Std.ExtTreeSet.not_mem_empty)
      (.go second (by decide) (Or.inl rfl) .here)
  refine ⟨lengths, nodes, by decide +kernel, ?_⟩
  obtain ⟨-, agree, -, near⟩ := objectives_agree_iff g ∅ ⟨"A"⟩ ⟨"B"⟩
  refine agree.2 (iff_of_false (fun late => ?_) (near lengths nodes))
  exact absurd (late.costly _ _ (walk.of_avoid rfl)) (by decide +kernel)

/-- The only edge between two stations takes the largest word of milliseconds: a query by travel time
finds nothing where one by length finds the edge. -/
theorem slow_edge_hides_neighbor :
    let station (name : String) : Addition := .node ⟨⟨name⟩, .station, ⟨0, 64, 0⟩, none, none⟩
    let g := made [station "A", station "B",
      .edge { source := ⟨"A"⟩, target := ⟨"B"⟩, length := 1, speedLimit := ⟨1⟩ }]
    ¬ ((g.shortestRoute ⟨.travelTime, ∅⟩ ⟨"A"⟩ ⟨"B"⟩).isSome = true ↔
      (g.shortestRoute ⟨.length, ∅⟩ ⟨"A"⟩ ⟨"B"⟩).isSome = true) := by
  decide +kernel

end Network

end Signalbox
