import Signalbox.Numeral.Total
import Signalbox.Route.Basic

/-!
# Shortest routes

The search keeps a label for every node reached so far: the least cost found, and the hops that
lead there.  Again and again it settles the unsettled node of least cost, the first by name of
several, and lets its label spread over the edges that lead on; only a strictly cheaper label
replaces another.  A cost that would reach the largest word counts as no way at all.

* `Search.next?_mem`      : the node that is settled next is labelled and not settled yet;
* `Network.shortestRoute` : the answer to a route query.
-/

set_option autoImplicit false

namespace Signalbox

/-- One step of a way: the edge, and the node it is left from. -/
structure Hop where
  edge : Edge
  origin : NodeId
deriving DecidableEq, Inhabited

/-- The best way found to a node: its cost, and its hops, the last one first. -/
structure Label where
  cost : Nat
  back : List Hop
deriving DecidableEq, Inhabited

/-- The sum of two costs, at most the largest word. -/
def addCost (a b : Nat) : Nat := min (a + b) maxWord

/-- The state of a search: the nodes not settled yet, and the labels. -/
structure Search where
  unsettled : Std.ExtTreeSet NodeId
  labels : Std.ExtTreeMap NodeId Label

namespace Search

/-- Before the first node is settled. -/
def start (g : Network) (origin : NodeId) : Search where
  unsettled := .ofList g.nodeMap.keys
  labels := .ofList [(origin, Label.mk 0 [])]

/-- The labelled nodes that are not settled, by name. -/
def unsettledLabels (s : Search) : List (NodeId × Label) :=
  s.labels.toList.filter fun (n, _) => n ∈ s.unsettled

/-- The node to settle next. -/
def next? (s : Search) : Option (NodeId × Label) := s.unsettledLabels.minOn? fun (_, l) => l.cost

/-- The cost of the best way found, the largest word if there is none. -/
def costTo (labels : Std.ExtTreeMap NodeId Label) (n : NodeId) : Nat :=
  (labels[n]?.map Label.cost).getD maxWord

/-- Offer the way over one more hop to the node it leads to. -/
def relax (o : RouteOptions) (n : NodeId) (l : Label) (labels : Std.ExtTreeMap NodeId Label)
    (exit : Edge × NodeId) : Std.ExtTreeMap NodeId Label :=
  let (e, m) := exit
  let cost := addCost l.cost (o.objective.cost e)
  if cost < costTo labels m then labels.insert m ⟨cost, ⟨e, n⟩ :: l.back⟩ else labels

/-- Settle a node. -/
def settle (g : Network) (o : RouteOptions) (goal : NodeId) (s : Search) (n : NodeId) (l : Label) :
    Search where
  unsettled := s.unsettled.erase n
  labels := (g.exits o goal n).foldl (relax o n l) s.labels

theorem next?_mem {s : Search} {n : NodeId} {l : Label} (h : s.next? = some (n, l)) :
    n ∈ s.unsettled ∧ s.labels[n]? = some l := by
  have hm : (n, l) ∈ s.unsettledLabels := List.minOn?_mem h
  rw [unsettledLabels, List.mem_filter] at hm
  exact ⟨by simpa using hm.2, Std.ExtTreeMap.mem_toList_iff_getElem?_eq_some.1 hm.1⟩

theorem size_settle {g : Network} {o : RouteOptions} {goal n : NodeId} {s : Search} {l : Label}
    (h : s.next? = some (n, l)) : (s.settle g o goal n l).unsettled.size < s.unsettled.size := by
  have hm := (next?_mem h).1
  have hne : 0 < s.unsettled.size := by
    rw [Nat.pos_iff_ne_zero]
    intro h0
    rw [Std.ExtTreeSet.eq_empty_iff_size_eq_zero.2 h0] at hm
    simp at hm
  have hc : s.unsettled.contains n = true := Std.ExtTreeSet.contains_iff_mem.2 hm
  simp only [settle, Std.ExtTreeSet.size_erase, hc, if_true]
  omega

/-- Settle nodes until the goal is next, and return its label. -/
def run (g : Network) (o : RouteOptions) (goal : NodeId) (s : Search) : Option Label :=
  match _h : s.next? with
  | none => none
  | some (n, l) => if n = goal then some l else run g o goal (s.settle g o goal n l)
termination_by s.unsettled.size
decreasing_by exact size_settle _h

theorem run_of_none {g : Network} {o : RouteOptions} {goal : NodeId} {s : Search}
    (h : s.next? = none) : run g o goal s = none := by
  rw [run]
  split
  · rfl
  · rename_i some_
    rw [h] at some_
    cases some_

theorem run_of_some {g : Network} {o : RouteOptions} {goal n : NodeId} {s : Search} {l : Label}
    (h : s.next? = some (n, l)) :
    run g o goal s = if n = goal then some l else run g o goal (s.settle g o goal n l) := by
  rw [run]
  split
  · rename_i none_
    rw [h] at none_
    cases none_
  · rename_i some_
    rw [h] at some_
    cases some_
    rfl

end Search

/-- The route that a label describes. -/
def Label.route (goal : NodeId) (l : Label) : Route where
  nodes := (goal :: l.back.map Hop.origin).reverse
  edges := (l.back.map fun h => h.edge.ends).reverse
  totalLength := total (fun h => h.edge.length) l.back
  cost := l.cost

/-- The cheapest route between two nodes, if both are known and there is one.  A node is always
reached from itself, by a route without edges. -/
def Network.shortestRoute (g : Network) (o : RouteOptions) (origin goal : NodeId) : Option Route :=
  if g.contains origin ∧ g.contains goal then
    if origin = goal then some ⟨[origin], [], 0, 0⟩
    else (Search.run g o goal (Search.start g origin)).map (Label.route goal)
  else none

end Signalbox
