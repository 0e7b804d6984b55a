import Mathlib.Data.List.Chain
import Mathlib.Order.Bounds.Basic
import Signalbox.Proofs.Network.History
import Signalbox.Proofs.Route.Shortest

/-!
# Which of several cheapest routes is found

Where every edge costs something, nodes are settled by cost, and those of one cost by name: whatever
leads to a node at its least cost costs less than that node, so it has had its turn before.  Of all
the nodes over which a node is entered at its least cost, the first to be settled keeps it.  So the
nodes of the route that answers a query follow from the network alone: each comes after the node of
least cost, the first by name of several, over which it is reached at its own least cost.

* `Turn`                             : the order in which nodes are settled;
* `Search.Ordered.settle`            : settling the next node keeps it;
* `Network.Precedes`                 : which node comes before which on a route;
* `Network.shortestRoute_canonical`  : a route is the only chain of nodes that precede each other.
-/

set_option autoImplicit false

namespace Signalbox

/-! ## Turns -/

/-- When a node is settled: nodes have their turns by cost, and those of one cost by name. -/
structure Turn where
  cost : Nat
  node : NodeId

namespace Turn

variable {a b c : Turn}

instance : LE Turn := ⟨fun a b => a.cost < b.cost ∨ (a.cost = b.cost ∧ a.node ≤ b.node)⟩

theorem le_refl (a : Turn) : a ≤ a := Or.inr ⟨rfl, String.le_refl _⟩

theorem le_trans (h : a ≤ b) (h' : b ≤ c) : a ≤ c := by
  rcases h with lt | ⟨eq, le⟩ <;> rcases h' with lt' | ⟨eq', le'⟩
  · exact Or.inl (Nat.lt_trans lt lt')
  · exact Or.inl (eq' ▸ lt)
  · exact Or.inl (eq ▸ lt')
  · exact Or.inr ⟨eq.trans eq', Ident.le_trans le le'⟩

theorem le_antisymm (h : a ≤ b) (h' : b ≤ a) : a.node = b.node := by
  rcases h with lt | ⟨eq, le⟩ <;> rcases h' with lt' | ⟨eq', le'⟩
  · exact absurd lt (Nat.lt_asymm lt')
  · exact absurd eq' (Nat.ne_of_gt lt)
  · exact absurd eq (Nat.ne_of_gt lt')
  · exact Ident.le_antisymm le le'

end Turn

/-! ## Least costs -/

namespace Network

variable {g : Network} {o : RouteOptions} {goal origin n m u v w : NodeId} {i j : Nat}

/-- The least that a permitted way from the origin to a node costs. -/
def LeastCost (g : Network) (o : RouteOptions) (goal origin n : NodeId) (cost : Nat) : Prop :=
  IsLeast {c | ∃ hops, g.Way o goal origin n hops ∧ o.costOf hops = c} cost

/-- The node `v` is entered at its least cost over the node `w`, whose least cost is `i`. -/
def EnteredOver (g : Network) (o : RouteOptions) (goal origin v w : NodeId) (i : Nat) : Prop :=
  g.LeastCost o goal origin w i ∧
    ∃ e, (e, v) ∈ g.exits o goal w ∧ g.LeastCost o goal origin v (i + o.objective.cost e)

/-- Of all the nodes over which `v` is entered at its least cost, `u` has its turn first: it has the
least cost, and the first name of those that cost as little. -/
def Precedes (g : Network) (o : RouteOptions) (goal origin u v : NodeId) : Prop :=
  ∃ i, g.EnteredOver o goal origin v u i ∧
    ∀ w j, g.EnteredOver o goal origin v w j → (⟨i, u⟩ : Turn) ≤ ⟨j, w⟩

theorem Precedes.unique (h : g.Precedes o goal origin u v) (h' : g.Precedes o goal origin w v) :
    u = w := by
  obtain ⟨i, entered, first⟩ := h
  obtain ⟨j, entered', first'⟩ := h'
  exact Turn.le_antisymm (first w j entered') (first' u i entered)

theorem not_precedes_origin (positive : ∀ e ∈ g.edges, 0 < o.objective.cost e) :
    ¬ g.Precedes o goal origin u origin := by
  rintro ⟨i, ⟨-, e, exit, -, least⟩, -⟩
  have free : i + o.objective.cost e ≤ 0 := least ⟨[], .here, rfl⟩
  have dear := positive e (mem_exits.1 exit).1
  omega

end Network

/-! ## The search -/

namespace Search

open Network (visits)

variable {g : Network} {o : RouteOptions} {goal origin n m u v w : NodeId} {e : Edge} {i j : Nat}
  {s : Search} {l k q : Label} {labels : Std.ExtTreeMap NodeId Label}
  {exits : List (Edge × NodeId)} {rest : List Hop}

theorem next?_first (h : s.next? = some (n, l)) (hm : m ∈ s.unsettled)
    (hk : s.labels[m]? = some k) : (⟨l.cost, n⟩ : Turn) ≤ ⟨k.cost, m⟩ := by
  have sorted : s.unsettledLabels.Pairwise fun a b => compare a.1 b.1 = .lt :=
    Std.ExtTreeMap.ordered_keys_toList.filter _
  have mem : (m, k) ∈ s.unsettledLabels := by
    rw [unsettledLabels, List.mem_filter]
    exact ⟨Std.ExtTreeMap.mem_toList_iff_getElem?_eq_some.2 hk, decide_eq_true hm⟩
  obtain ⟨le, ties⟩ := least_of_minOn? sorted h _ mem
  rcases Nat.lt_or_eq_of_le le with lt | eq
  · exact Or.inl lt
  refine Or.inr ⟨eq, ?_⟩
  rcases ties (Nat.le_of_eq eq.symm) with same | before
  · cases same
    exact String.le_refl _
  · exact (Ident.lt_iff_le_and_ne.1 (Ident.compare_eq_lt.1 before)).1

theorem eq_or_lt_of_relax (hq : labels[m]? = some q)
    (hk : (exits.foldl (relax o n l) labels)[m]? = some k) : k = q ∨ k.cost < q.cost := by
  induction exits generalizing labels q with
  | nil =>
    rw [List.foldl_nil, hq] at hk
    cases hk
    exact Or.inl rfl
  | cons x exits ih =>
    obtain ⟨e, p⟩ := x
    by_cases hc : p = m ∧ addCost l.cost (o.objective.cost e) < costTo labels p
    · have better : (relax o n l labels (e, p))[m]? =
          some ⟨addCost l.cost (o.objective.cost e), ⟨e, n⟩ :: l.back⟩ := by
        rw [getElem?_relax, if_pos hc]
      rw [hc.1, costTo_of_some hq] at hc
      rcases ih better hk with rfl | lt
      · exact Or.inr hc.2
      · exact Or.inr (Nat.lt_trans lt hc.2)
    · have same : (relax o n l labels (e, p))[m]? = some q := by
        rw [getElem?_relax, if_neg hc, hq]
      exact ih same hk

/-! ### Order of turns -/

/-- Nodes have been settled in the order of their turns, and the last hop of every label starts at the
first of them over which that label's cost is reached. -/
structure Ordered (g : Network) (o : RouteOptions) (goal : NodeId) (s : Search) : Prop where
  /-- Settled nodes have had their turns before those that wait. -/
  turns (n : NodeId) (l : Label) : s.labels[n]? = some l → n ∉ s.unsettled →
    ∀ m k, s.labels[m]? = some k → m ∈ s.unsettled → (⟨l.cost, n⟩ : Turn) ≤ ⟨k.cost, m⟩
  /-- A label goes on from the label of a settled node, the first to have had its turn of those that
  lead to the same cost. -/
  entered (n : NodeId) (l : Label) (e : Edge) (u : NodeId) (rest : List Hop) :
    s.labels[n]? = some l → l.back = ⟨e, u⟩ :: rest → u ∉ s.unsettled ∧
      ∃ k, s.labels[u]? = some k ∧ k.back = rest ∧
        ∀ w q d, s.labels[w]? = some q → w ∉ s.unsettled → (d, n) ∈ g.exits o goal w →
          q.cost + o.objective.cost d = l.cost → (⟨k.cost, u⟩ : Turn) ≤ ⟨q.cost, w⟩

theorem ordered_start (g : Network) (o : RouteOptions) (goal : NodeId) (ho : origin ∈ g.nodeMap) :
    Ordered g o goal (start g origin) := by
  constructor
  case turns =>
    intro n l h settled
    obtain ⟨rfl, -⟩ := getElem?_labels_start.1 h
    exact absurd (mem_unsettled_start.2 ho) settled
  case entered =>
    intro n l e u rest h back
    obtain ⟨-, rfl⟩ := getElem?_labels_start.1 h
    cases back

theorem not_mem_unsettled_settle :
    m ∉ (s.settle g o goal n l).unsettled ↔ m = n ∨ m ∉ s.unsettled := by
  rw [mem_unsettled_settle, not_and_or, not_not, eq_comm]

/-- A label after a node is settled was there before, or leads over that node and is cheaper than the
one before. -/
theorem Consistent.renewed (h : Consistent g o goal origin s)
    (hk : (s.settle g o goal n l).labels[m]? = some k) :
    s.labels[m]? = some k ∨ ∃ e, (e, m) ∈ g.exits o goal n ∧
      k = ⟨l.cost + o.objective.cost e, ⟨e, n⟩ :: l.back⟩ ∧ k.cost < maxWord ∧
      ∀ q, s.labels[m]? = some q → k.cost < q.cost := by
  by_cases old : s.labels[m]? = some k
  · exact Or.inl old
  rcases h.source hk with same | ⟨e, exit, eq, lt⟩
  · exact absurd same old
  refine Or.inr ⟨e, exit, eq, lt, fun q hq => ?_⟩
  rcases eq_or_lt_of_relax hq hk with rfl | cheaper
  · exact absurd hq old
  · exact cheaper

/-- What a settled node is labelled with stays, and it had its turn before the node that is settled
now. -/
theorem Ordered.had_turn (hs : Ordered g o goal s) (h : Consistent g o goal origin s)
    (hn : s.next? = some (n, l)) (hm : m ∉ (s.settle g o goal n l).unsettled)
    (hk : (s.settle g o goal n l).labels[m]? = some k) :
    s.labels[m]? = some k ∧ (⟨k.cost, m⟩ : Turn) ≤ ⟨l.cost, n⟩ := by
  obtain ⟨wait, hl⟩ := next?_mem hn
  rcases not_mem_unsettled_settle.1 hm with rfl | settled
  · rw [h.self_settle hl] at hk
    cases hk
    exact ⟨hl, Turn.le_refl _⟩
  · have before := (h.kept_settle hn hk settled).1
    exact ⟨before, hs.turns m k before settled n l hl wait⟩

/-- **Settling the next node keeps the order of turns**, where every edge costs something. -/
theorem Ordered.settle (hs : Ordered g o goal s) (h : Consistent g o goal origin s)
    (positive : ∀ e ∈ g.edges, 0 < o.objective.cost e) (hn : s.next? = some (n, l)) :
    Ordered g o goal (s.settle g o goal n l) := by
  obtain ⟨wait, hl⟩ := next?_mem hn
  have self := h.self_settle hl
  constructor
  case turns =>
    intro m k hk settled p q hq waits
    obtain ⟨-, turn⟩ := hs.had_turn h hn settled hk
    refine Turn.le_trans turn ?_
    rcases h.source hq with old | ⟨e, exit, rfl, -⟩
    · exact next?_first hn (mem_unsettled_settle.1 waits).2 old
    · have dear := positive e (Network.mem_exits.1 exit).1
      exact Or.inl (Nat.lt_add_of_pos_right dear)
  case entered =>
    intro m k e u rest hk back
    rcases h.renewed hk with old | ⟨d, exit, rfl, low, cheaper⟩
    · obtain ⟨settled, ku, hu, tail, first⟩ := hs.entered m k e u rest old back
      have turn := hs.turns u ku hu settled n l hl wait
      have le : ku.cost ≤ l.cost := h.sorted u ku hu settled n l hl wait
      refine ⟨not_mem_unsettled_settle.2 (Or.inr settled), ku,
        keep_relax (Nat.le_of_lt (h.ways n l hl).2.2) hu le, tail, ?_⟩
      intro w q d hq hw exit cost
      rcases not_mem_unsettled_settle.1 hw with rfl | settled'
      · rw [self] at hq
        cases hq
        exact turn
      · exact first w q d (hs.had_turn h hn hw hq).1 settled' exit cost
    · cases back
      refine ⟨not_mem_unsettled_settle.2 (Or.inl rfl), l, self, rfl, ?_⟩
      intro w q d' hq hw exit' cost
      rcases not_mem_unsettled_settle.1 hw with rfl | settled'
      · rw [self] at hq
        cases hq
        exact Turn.le_refl _
      · -- a node settled before would have offered as little already
        obtain ⟨k₀, hk₀, le⟩ := h.relaxed w q (hs.had_turn h hn hw hq).1 settled' d' m exit'
          (cost ▸ low)
        exact absurd (cheaper k₀ hk₀) (Nat.not_lt.2 (cost ▸ le))

/-! ### What turns come to -/

/-- A label that costs no more than those that wait has the least cost of all ways. -/
theorem Consistent.leastCost (h : Consistent g o goal origin s) (hl : s.labels[n]? = some l)
    (low : ∀ m k, s.labels[m]? = some k → m ∈ s.unsettled → l.cost ≤ k.cost) :
    g.LeastCost o goal origin n l.cost := by
  obtain ⟨way, cost, word⟩ := h.ways n l hl
  refine ⟨⟨l.back, way, cost.symm⟩, ?_⟩
  rintro c ⟨hops, hw, rfl⟩
  refine Nat.not_lt.1 fun less => ?_
  rcases h.front hw (Nat.lt_trans less word) with ⟨-, k, hk, le⟩ | ⟨p, k, hp, hk, le⟩
  · rw [hl] at hk
    cases hk
    omega
  · have := low p k hk hp
    omega

/-- A node whose least cost is below that of all that wait is settled. -/
theorem Consistent.settled_of_leastCost (h : Consistent g o goal origin s)
    (least : g.LeastCost o goal origin w j) (word : j < maxWord)
    (low : ∀ m k, s.labels[m]? = some k → m ∈ s.unsettled → j < k.cost) :
    w ∉ s.unsettled ∧ ∃ q, s.labels[w]? = some q ∧ q.cost = j := by
  obtain ⟨⟨hops, way, rfl⟩, bound⟩ := least
  rcases h.front way word with ⟨settled, q, hq, le⟩ | ⟨p, k, hp, hk, le⟩
  · obtain ⟨way', cost, -⟩ := h.ways w q hq
    exact ⟨settled, q, hq, Nat.le_antisymm le (bound ⟨q.back, way', cost.symm⟩)⟩
  · have := low p k hk hp
    omega

/-- The last hop of a label that costs no more than those that wait starts at the node that precedes
the labelled one. -/
theorem Ordered.precedes (hs : Ordered g o goal s) (h : Consistent g o goal origin s)
    (positive : ∀ e ∈ g.edges, 0 < o.objective.cost e) (hl : s.labels[n]? = some l)
    (low : ∀ m k, s.labels[m]? = some k → m ∈ s.unsettled → l.cost ≤ k.cost)
    (back : l.back = ⟨e, u⟩ :: rest) : g.Precedes o goal origin u n := by
  obtain ⟨settled, k, hk, rfl, first⟩ := hs.entered n l e u _ hl back
  obtain ⟨way, cost, word⟩ := h.ways n l hl
  have least := h.leastCost hl low
  have sum : l.cost = k.cost + o.objective.cost e := by
    rw [cost, back, RouteOptions.costOf_cons, ← (h.ways u k hk).2.1, Nat.add_comm]
  rw [back] at way
  cases way with
  | hop _ exit =>
    refine ⟨k.cost, ⟨h.leastCost hk (h.sorted u k hk settled), e, exit, sum ▸ least⟩, ?_⟩
    rintro w j ⟨leastW, d, exit', leastN⟩
    have tight : j + o.objective.cost d = l.cost := leastN.unique least
    have dear := positive d (Network.mem_exits.1 exit').1
    have earlier : j < l.cost := by omega
    obtain ⟨settled', q, hq, rfl⟩ := h.settled_of_leastCost leastW (Nat.lt_trans earlier word)
      fun m k hk hm => Nat.lt_of_lt_of_le earlier (low m k hk hm)
    exact first w q d hq settled' exit' tight

/-- The way of a label that costs no more than those that wait leads over nodes that precede each
other. -/
theorem Ordered.chain (hs : Ordered g o goal s) (h : Consistent g o goal origin s)
    (positive : ∀ e ∈ g.edges, 0 < o.objective.cost e) (hl : s.labels[n]? = some l)
    (low : ∀ m k, s.labels[m]? = some k → m ∈ s.unsettled → l.cost ≤ k.cost) :
    (visits n l.back).IsChain (fun v u => g.Precedes o goal origin u v) := by
  generalize back : l.back = hops
  induction hops generalizing n l with
  | nil => exact List.isChain_singleton n
  | cons hop rest ih =>
    obtain ⟨e, u⟩ := hop
    obtain ⟨settled, k, hk, tail, -⟩ := hs.entered n l e u rest hl back
    refine List.isChain_cons_cons.2 ⟨hs.precedes h positive hl low back, ?_⟩
    exact ih hk (h.sorted u k hk settled) tail

theorem Ordered.run (hs : Ordered g o goal s) (h : Consistent g o goal origin s)
    (positive : ∀ e ∈ g.edges, 0 < o.objective.cost e) (hr : Search.run g o goal s = some l) :
    (visits goal l.back).IsChain (fun v u => g.Precedes o goal origin u v) := by
  fun_induction Search.run g o goal s with
  | case1 => cases hr
  | case2 s k hn =>
    cases hr
    exact hs.chain h positive (next?_mem hn).2 fun m q hq hm => next?_le hn hm hq
  | case3 s n k hn hne ih => exact ih (hs.settle h positive hn) (h.settle hn hne) hr

end Search

/-! ## Routes -/

/-- Two chains back to the same first entry are equal, if no entry has two that precede it and the
first has none. -/
theorem eq_of_isChain {α : Type} (r : α → α → Prop) {a : α}
    (unique : ∀ u w v, r u v → r w v → u = w) (first : ∀ u, ¬ r u a) {l l' : List α}
    (hl : l.IsChain (fun v u => r u v)) (hl' : l'.IsChain (fun v u => r u v)) (head : l.head? = l'.head?)
    (last : l.getLast? = some a) (last' : l'.getLast? = some a) : l = l' := by
  induction l generalizing l' with
  | nil => cases last
  | cons b l ih =>
    cases l' with
    | nil => cases last'
    | cons b' l' =>
      cases head
      cases l with
      | nil =>
        cases l' with
        | nil => rfl
        | cons c' l' =>
          cases last
          exact absurd (List.isChain_cons_cons.1 hl').1 (first c')
      | cons c l =>
        cases l' with
        | nil =>
          cases last'
          exact absurd (List.isChain_cons_cons.1 hl).1 (first c)
        | cons c' l' =>
          obtain ⟨step, hl⟩ := List.isChain_cons_cons.1 hl
          obtain ⟨step', hl'⟩ := List.isChain_cons_cons.1 hl'
          obtain rfl := unique c c' b step step'
          rw [List.getLast?_cons_cons] at last last'
          rw [ih hl hl' rfl last last']

namespace Network

variable {g : Network} {o : RouteOptions} {goal origin : NodeId} {route : Route}

theorem isChain_nodes (positive : ∀ e ∈ g.edges, 0 < o.objective.cost e)
    (h : g.shortestRoute o origin goal = some route) :
    route.nodes.IsChain (g.Precedes o goal origin) ∧ route.nodes.head? = some origin ∧
      route.nodes.getLast? = some goal := by
  obtain ⟨ho, hg⟩ := known_of_shortestRoute h
  obtain ⟨es, walk, -⟩ := (answers_of_shortestRoute ho hg h).walk
  obtain ⟨rest, starts⟩ := walk.exists_cons
  by_cases hne : origin = goal
  · subst hne
    rw [shortestRoute_self o ho] at h
    cases h
    exact ⟨List.isChain_singleton _, rfl, rfl⟩
  · rw [shortestRoute_of_ne ho hg hne, Option.map_eq_some_iff] at h
    obtain ⟨l, found, rfl⟩ := h
    have chain := (Search.ordered_start g o goal ho).run
      (Search.consistent_start (o := o) ho hg) positive found
    refine ⟨List.isChain_reverse.2 chain, by rw [starts]; rfl, ?_⟩
    rw [Label.route, List.getLast?_reverse]
    rfl

/-- **The route that answers a query follows from the network alone**, where every edge costs
something.  Of each two nodes in succession the first is, of all the nodes over which the second is
entered at its least cost, the one of least cost, the first by name of several.  No other list of nodes
from the origin to the goal is like that. -/
theorem shortestRoute_canonical (positive : ∀ e ∈ g.edges, 0 < o.objective.cost e)
    (h : g.shortestRoute o origin goal = some route) :
    route.nodes.IsChain (g.Precedes o goal origin) ∧
      ∀ ns : List NodeId, ns.head? = some origin → ns.getLast? = some goal →
        ns.IsChain (g.Precedes o goal origin) → ns = route.nodes := by
  obtain ⟨chain, starts, ends⟩ := isChain_nodes positive h
  refine ⟨chain, fun ns head last other => ?_⟩
  have backwards {ns : List NodeId} (h : ns.IsChain (g.Precedes o goal origin)) :
      ns.reverse.IsChain fun v u => g.Precedes o goal origin u v := List.isChain_reverse.2 h
  have back : ns.reverse = route.nodes.reverse := by
    refine eq_of_isChain (g.Precedes o goal origin) (fun u w v => Precedes.unique)
      (fun u => not_precedes_origin positive) (backwards other) (backwards chain) ?_ ?_ ?_
    · rw [List.head?_reverse, List.head?_reverse, last, ends]
    · rw [List.getLast?_reverse, head]
    · rw [List.getLast?_reverse, starts]
  exact List.reverse_injective back

/-- Three ways of length three from `A` to `D`.  The one over `B` is left out, as `B` costs more than
`M` and `Z`; of these `M` comes first by name. -/
theorem shortestRoute_canonical_three_ways :
    let station (name : String) : Addition := .node ⟨⟨name⟩, .station, ⟨0, 64, 0⟩, none, none⟩
    let edge (a b : String) (length : Nat) : Addition :=
      .edge { source := ⟨a⟩, target := ⟨b⟩, length, speedLimit := ⟨1090519040⟩ }
    let g := made [station "A", station "B", station "D", station "M", station "Z", edge "A" "B" 2,
      edge "B" "D" 1, edge "A" "Z" 1, edge "Z" "D" 2, edge "A" "M" 1, edge "M" "D" 2]
    (∀ e ∈ g.edges, 0 < Objective.length.cost e) ∧
      (g.shortestRoute {} ⟨"A"⟩ ⟨"D"⟩).map Route.nodes = some [⟨"A"⟩, ⟨"M"⟩, ⟨"D"⟩] ∧
      g.Precedes {} ⟨"D"⟩ ⟨"A"⟩ ⟨"M"⟩ ⟨"D"⟩ := by
  intro station edge g
  have positive : ∀ e ∈ g.edges, 0 < Objective.length.cost e := by decide +kernel
  have found : g.shortestRoute {} ⟨"A"⟩ ⟨"D"⟩ =
      some ⟨[⟨"A"⟩, ⟨"M"⟩, ⟨"D"⟩], [⟨⟨"A"⟩, ⟨"M"⟩⟩, ⟨⟨"D"⟩, ⟨"M"⟩⟩], 3, 3⟩ := by decide +kernel
  refine ⟨positive, by rw [found]; rfl, ?_⟩
  have chain := (shortestRoute_canonical positive found).1
  exact (List.isChain_cons_cons.1 (List.isChain_cons_cons.1 chain).2).1

end Network

end Signalbox
