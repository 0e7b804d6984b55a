import Signalbox.Heap
import Signalbox.Network.Chart
import Signalbox.Route.Search

/-!
# Shortest routes on a chart

On a chart the search keeps what it knows by slots: what it costs to reach every node, and over
which edge and from which node it was reached.  Whenever a node is reached more cheaply, an entry
with the new cost goes into a heap; the entries of its earlier costs stay there, and are passed over
when their turn comes.  When the goal has its turn, the way is followed back to the origin.

As with all that reads a chart, `none` says that a slot was missing.

* `Reckoning.settle?`    : let a node spread over its edges;
* `Reckoning.retrace?`   : follow a way back;
* `Reckoning.run?`       : hand out entries until the goal has its turn;
* `Chart.shortestRoute?` : the answer to a route query.
-/

set_option autoImplicit false

namespace Signalbox

/-- The slot of a node, and a cost at which it was reached. -/
structure Reached where
  cost : Nat
  slot : Nat
deriving DecidableEq, Inhabited

namespace Reached

instance : Ord Reached := ⟨compareLex (compareOn Reached.cost) (compareOn Reached.slot)⟩

instance : Std.TransOrd Reached :=
  inferInstanceAs (Std.TransCmp (compareLex (compareOn Reached.cost) (compareOn Reached.slot)))

theorem compare_def (x y : Reached) :
    compare x y = (compare x.cost y.cost).then (compare x.slot y.slot) := rfl

end Reached

/-- How a node was reached: the slot of the edge, and that of the node at its other end. -/
structure Passage where
  edge : Nat
  origin : Nat
deriving DecidableEq, Inhabited

/-- What a search on a chart knows. -/
structure Reckoning where
  /-- For every node slot the least cost found, the largest word where there is none. -/
  costs : Array Nat
  /-- For every node slot the passage of that cost. -/
  via : Array (Option Passage)
  heap : Heap Reached

namespace Reckoning

/-- Before the first node is settled. -/
def start (ch : Chart) (origin : Nat) : Reckoning where
  costs := (Array.replicate ch.nodes.size maxWord).setIfInBounds origin 0
  via := .replicate ch.nodes.size none
  heap := Heap.empty.push ⟨0, origin⟩

/-- A node was reached more cheaply. -/
def reach (r : Reckoning) (slot cost : Nat) (p : Passage) : Reckoning where
  costs := r.costs.setIfInBounds slot cost
  via := r.via.setIfInBounds slot (some p)
  heap := r.heap.push ⟨cost, slot⟩

/-- Offer the way over one more edge to the node it leads to. -/
def relax? (ch : Chart) (o : RouteOptions) (goal n : NodeId) (x : Reached) (r : Reckoning)
    (edge : Nat) : Option Reckoning := do
  let e ← ch.edges[edge]?
  match o.exit? goal n e with
  | none => some r
  | some m =>
    match ch.nodeSlots[m]? with
    | none => some r
    | some next =>
      let known ← r.costs[next]?
      let cost := addCost x.cost (o.objective.cost e)
      if cost < known then some (r.reach next cost ⟨edge, x.slot⟩) else some r

/-- Settle a node. -/
def settle? (ch : Chart) (o : RouteOptions) (goal : NodeId) (r : Reckoning) (x : Reached) :
    Option Reckoning := do
  let n ← ch.nodes[x.slot]?
  let edges ← ch.incident[x.slot]?
  edges.foldlM (relax? ch o goal n.id x) r

/-! ### Progress -/

/-- A bound on the entries that are still to be handed out: every new entry lowers a cost. -/
def work (r : Reckoning) : Nat := total id r.costs.toList + r.heap.entries.length

theorem work_reach {r : Reckoning} {slot known cost : Nat} (h : r.costs[slot]? = some known)
    (less : cost < known) (p : Passage) : (r.reach slot cost p).work ≤ r.work := by
  rw [← Array.getElem?_toList] at h
  have lower := total_set_lt h less
  simp only [work, reach, Array.toList_setIfInBounds, Heap.entries_push, List.length_cons]
  omega

theorem work_relax? {ch : Chart} {o : RouteOptions} {goal n : NodeId} {x : Reached}
    {r r' : Reckoning} {edge : Nat} (h : relax? ch o goal n x r edge = some r') :
    r'.work ≤ r.work := by
  simp only [relax?, Option.bind_eq_bind, Option.bind_eq_some_iff] at h
  obtain ⟨e, -, h⟩ := h
  split at h
  · cases h
    exact Nat.le_refl _
  · split at h
    · cases h
      exact Nat.le_refl _
    · obtain ⟨known, old, h⟩ := Option.bind_eq_some_iff.1 h
      split at h
      · cases h
        rename_i less
        exact work_reach old less _
      · cases h
        exact Nat.le_refl _

theorem work_settle? {ch : Chart} {o : RouteOptions} {goal : NodeId} {r r' : Reckoning}
    {x : Reached} (h : settle? ch o goal r x = some r') : r'.work ≤ r.work := by
  simp only [settle?, Option.bind_eq_bind, Option.bind_eq_some_iff] at h
  obtain ⟨n, -, edges, -, h⟩ := h
  induction edges generalizing r with
  | nil =>
    cases h
    exact Nat.le_refl _
  | cons edge edges ih =>
    rw [List.foldlM_cons, Option.bind_eq_bind, Option.bind_eq_some_iff] at h
    obtain ⟨r₁, first, rest⟩ := h
    exact Nat.le_trans (ih rest) (work_relax? first)

theorem work_behind {r : Reckoning} {x : Reached} {heap : Heap Reached}
    (h : r.heap.pop? = some (x, heap)) : ({ r with heap } : Reckoning).work < r.work := by
  have := Heap.length_of_pop? h
  simp only [work]
  omega

/-! ### The answer -/

/-- Put the way that leads to a slot in front of a route that starts there.  A way comes to no node
twice, so a bound on its passages is the number of nodes. -/
def retrace? (ch : Chart) (r : Reckoning) : Nat → Nat → Route → Option Route
  | 0, _, _ => none
  | bound + 1, slot, route => do
    match ← r.via[slot]? with
    | none => some route
    | some p =>
      let e ← ch.edges[p.edge]?
      let n ← ch.nodes[p.origin]?
      retrace? ch r bound p.origin { route with
        nodes := n.id :: route.nodes
        edges := e.ends :: route.edges
        totalLength := route.totalLength + e.length }

/-- Settle nodes until the goal has its turn, and tell the route there. -/
def run? (ch : Chart) (o : RouteOptions) (goal : NodeId) (slot : Nat) (r : Reckoning) :
    Option (Option Route) :=
  match _h : r.heap.pop? with
  | none => some none
  | some (x, heap) =>
    if x.slot = slot then do
      let n ← ch.nodes[slot]?
      let route ← retrace? ch r ch.nodes.size slot ⟨[n.id], [], 0, x.cost⟩
      some (some route)
    else
      match r.costs[x.slot]? with
      | none => none
      | some known =>
        if known < x.cost then run? ch o goal slot { r with heap }
        else
          match _h' : settle? ch o goal { r with heap } x with
          | none => none
          | some r' => run? ch o goal slot r'
termination_by r.work
decreasing_by
  · exact work_behind _h
  · exact Nat.lt_of_le_of_lt (work_settle? _h') (work_behind _h)

section

variable {ch : Chart} {o : RouteOptions} {goal : NodeId} {slot known : Nat} {r r' : Reckoning}
  {x : Reached} {heap : Heap Reached}

theorem run?_of_empty (h : r.heap.pop? = none) : run? ch o goal slot r = some none := by
  rw [run?]
  split
  · rfl
  · rename_i found
    rw [h] at found
    cases found

theorem run?_of_goal (h : r.heap.pop? = some (x, heap)) (here : x.slot = slot) :
    run? ch o goal slot r = (do
      let n ← ch.nodes[slot]?
      let route ← retrace? ch r ch.nodes.size slot ⟨[n.id], [], 0, x.cost⟩
      some (some route)) := by
  rw [run?]
  split
  · rename_i none_
    rw [h] at none_
    cases none_
  · rename_i found
    rw [h] at found
    cases found
    rw [if_pos here]

theorem run?_of_late (h : r.heap.pop? = some (x, heap)) (apart : x.slot ≠ slot)
    (cost : r.costs[x.slot]? = some known) (late : known < x.cost) :
    run? ch o goal slot r = run? ch o goal slot { r with heap } := by
  rw [run?]
  split
  · rename_i none_
    rw [h] at none_
    cases none_
  · rename_i found
    rw [h] at found
    cases found
    simp only [apart, if_false, cost, late, if_true]

theorem run?_of_turn (h : r.heap.pop? = some (x, heap)) (apart : x.slot ≠ slot)
    (cost : r.costs[x.slot]? = some known) (due : x.cost ≤ known)
    (settled : settle? ch o goal { r with heap } x = some r') :
    run? ch o goal slot r = run? ch o goal slot r' := by
  rw [run?]
  split
  · rename_i none_
    rw [h] at none_
    cases none_
  · rename_i found
    rw [h] at found
    cases found
    simp only [apart, if_false, cost, Nat.not_lt.2 due]
    split
    · rename_i none_
      rw [settled] at none_
      cases none_
    · rename_i some_
      rw [settled] at some_
      cases some_
      rfl

end

end Reckoning

/-- The cheapest route between two nodes, if both are known and there is one. -/
def Chart.shortestRoute? (ch : Chart) (o : RouteOptions) (origin goal : NodeId) :
    Option (Option Route) :=
  match ch.nodeSlots[origin]?, ch.nodeSlots[goal]? with
  | some start, some slot =>
    if start = slot then some (some ⟨[origin], [], 0, 0⟩)
    else Reckoning.run? ch o goal slot (.start ch start)
  | _, _ => some none

end Signalbox
