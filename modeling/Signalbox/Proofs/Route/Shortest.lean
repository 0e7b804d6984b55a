import Mathlib.Data.List.Nodup
import Signalbox.Proofs.Route.Search

/-!
# Route queries are answered exactly

A walk that a query permits is told by its nodes and edges in travel order.  It is the same as a way
read backwards, so that a query is answered with a permitted walk that no other one beats.  The
nodes behind a label are settled, and a node that is settled gets no new label, so that no node
comes twice.

* `Network.Permitted`          : the walks that a query permits;
* `Search.Simple.settle`       : settling the next node keeps ways without repeated nodes;
* `Network.shortestRoute_exact` : when there is an answer, and what it is.
-/

set_option autoImplicit false

namespace Signalbox

namespace Network

/-- A walk from a node to the goal that a query permits, by its nodes and its edges in travel order:
every edge may be used in the direction in which it is, and no node but the goal is entered that is
to be avoided. -/
inductive Permitted (g : Network) (o : RouteOptions) (goal : NodeId) :
    NodeId → List NodeId → List Edge → Prop
  | here : Permitted g o goal goal [goal] []
  | go {n m : NodeId} {e : Edge} {ns : List NodeId} {es : List Edge} :
    e ∈ g.edges → e.target? n = some m → (m = goal ∨ m ∉ o.avoid) →
      Permitted g o goal m ns es → Permitted g o goal n (n :: ns) (e :: es)

variable {g : Network} {o : RouteOptions} {goal origin n m : NodeId} {e : Edge} {hops : List Hop}
  {ns : List NodeId} {es : List Edge} {route : Route}

theorem ends_of_target? (h : e.target? n = some m) : e.ends = Ends.of n m := by
  rcases Edge.target?_eq_some.1 h with ⟨rfl, rfl⟩ | ⟨-, -, rfl, rfl⟩
  · rfl
  · exact Ends.of_comm e.source e.target

namespace Permitted

theorem exists_cons (h : g.Permitted o goal n ns es) : ∃ rest, ns = n :: rest := by
  cases h with
  | here => exact ⟨[], rfl⟩
  | go => exact ⟨_, rfl⟩

theorem ends_eq (h : g.Permitted o goal n ns es) :
    es.map Edge.ends = List.zipWith Ends.of ns ns.tail := by
  induction h with
  | here => rfl
  | go _ ht _ hp ih =>
    obtain ⟨rest, rfl⟩ := hp.exists_cons
    rw [List.map_cons, ih, ends_of_target? ht]
    rfl

theorem length_nodes (h : g.Permitted o goal n ns es) : ns.length = es.length + 1 := by
  induction h with
  | here => rfl
  | go _ _ _ _ ih => rw [List.length_cons, ih, List.length_cons]

theorem mem_edges (h : g.Permitted o goal n ns es) : ∀ d ∈ es, d ∈ g.edges := by
  induction h with
  | here => exact nofun
  | go he _ _ _ ih => exact List.forall_mem_cons.2 ⟨he, ih⟩

theorem known (h : g.Permitted o goal n ns es) (hg : goal ∈ g.nodeMap) :
    ∀ m ∈ ns, m ∈ g.nodeMap := by
  induction h with
  | here => exact List.forall_mem_cons.2 ⟨hg, nofun⟩
  | go he ht _ _ ih => exact List.forall_mem_cons.2 ⟨(known_of_target? he ht).1, ih⟩

/-- A walk that visits no node twice has fewer edges than the network has nodes. -/
theorem total_le {f : Edge → Nat} {most : Nat} (h : g.Permitted o goal n ns es)
    (hg : goal ∈ g.nodeMap) (simple : ns.Nodup) (edges : ∀ e ∈ g.edges, f e ≤ most) :
    total f es ≤ (g.nodeCount - 1) * most := by
  have sub : ns ⊆ g.nodeMap.keys := fun m hm => Std.ExtTreeMap.mem_keys.2 (h.known hg m hm)
  have few := simple.length_le_of_subset sub
  rw [Std.ExtTreeMap.length_keys, h.length_nodes] at few
  have each : total f es ≤ es.length * most := total_le_mul f fun e he => edges e (h.mem_edges e he)
  exact Nat.le_trans each (Nat.mul_le_mul_right _ (Nat.le_sub_one_of_lt few))

/-! ## Walks and ways -/

/-- A way and a permitted walk that goes on from it. -/
theorem of_way (hw : g.Way o goal origin m hops) (h : g.Permitted o goal m ns es) :
    g.Permitted o goal origin ((hops.map Hop.origin).reverse ++ ns)
      ((hops.map Hop.edge).reverse ++ es) := by
  induction hw generalizing ns es with
  | here => exact h
  | @hop n m e hops _ he ih =>
    obtain ⟨hmem, ht, hok⟩ := mem_exits.1 he
    simpa using ih (.go hmem ht hok h)

/-- A permitted walk that goes on from a way is the rest of a longer way. -/
theorem exists_way (h : g.Permitted o goal n ns es) (hw : g.Way o goal origin n hops) :
    ∃ more, g.Way o goal origin goal (more ++ hops) ∧ more.map Hop.edge = es.reverse := by
  induction h generalizing hops with
  | here => exact ⟨[], hw, rfl⟩
  | @go n m e ns es he ht hok _ ih =>
    obtain ⟨more, hway, hedges⟩ := ih (hw.hop (mem_exits.2 ⟨he, ht, hok⟩))
    refine ⟨more ++ [⟨e, n⟩], ?_, ?_⟩
    · rw [List.append_assoc]
      exact hway
    · rw [List.map_append, hedges, List.reverse_cons]
      rfl

end Permitted

theorem costOf_eq (o : RouteOptions) (hops : List Hop) :
    o.costOf hops = total o.objective.cost (hops.map Hop.edge).reverse := by
  rw [total_reverse, total_map]
  rfl

/-- Nothing beats a bound on all ways if and only if nothing beats it on the permitted walks. -/
theorem forall_way_iff {bound : Nat} :
    (∀ hops, g.Way o goal origin goal hops → bound ≤ o.costOf hops) ↔
      ∀ ns es, g.Permitted o goal origin ns es → bound ≤ total o.objective.cost es := by
  constructor
  · intro h ns es hp
    obtain ⟨more, hw, hedges⟩ := hp.exists_way .here
    have cost := h _ hw
    rwa [List.append_nil, costOf_eq, hedges, List.reverse_reverse] at cost
  · intro h hops hw
    rw [costOf_eq]
    simpa using h _ _ (.of_way hw .here)

end Network

/-! ## No node twice -/

namespace Search

open Network (visits)

variable {g : Network} {o : RouteOptions} {goal origin n : NodeId} {s : Search} {l : Label}

/-- The ways of all labels visit no node twice, and only settled nodes before their last. -/
def Simple (s : Search) : Prop :=
  ∀ (n : NodeId) (l : Label), s.labels[n]? = some l →
    (visits n l.back).Nodup ∧ ∀ m ∈ l.back.map Hop.origin, m ∉ s.unsettled

theorem simple_start (g : Network) (origin : NodeId) : Simple (start g origin) := by
  intro n l h
  obtain ⟨-, rfl⟩ := getElem?_labels_start.1 h
  exact ⟨List.pairwise_singleton _ _, nofun⟩

/-- **Settling the next node keeps ways without repeated nodes**: a settled node keeps its label, so
that only nodes that wait are reached over the next one. -/
theorem Simple.settle (hs : Simple s) (h : Consistent g o goal origin s)
    (hn : s.next? = some (n, l)) : Simple (s.settle g o goal n l) := by
  have hl := (next?_mem hn).2
  have still {m : NodeId} (hm : m ∉ s.unsettled) : m ∉ (s.settle g o goal n l).unsettled :=
    fun hu => hm (mem_unsettled_settle.1 hu).2
  have before {m : NodeId} {k : Label} (hk : s.labels[m]? = some k) :
      (visits m k.back).Nodup ∧
        ∀ p ∈ k.back.map Hop.origin, p ∉ (s.settle g o goal n l).unsettled :=
    ⟨(hs m k hk).1, fun p hp => still ((hs m k hk).2 p hp)⟩
  intro m k hk
  by_cases hm : m ∈ s.unsettled
  case neg => exact before (h.kept_settle hn hk hm).1
  by_cases hnm : n = m
  · subst hnm
    rw [h.self_settle hl] at hk
    cases hk
    exact before hl
  rcases h.source hk with hk | ⟨e, -, rfl, -⟩
  · exact before hk
  · obtain ⟨nodup, behind⟩ := hs n l hl
    refine ⟨List.nodup_cons.2 ⟨fun hmem => ?_, nodup⟩, List.forall_mem_cons.2 ⟨?_, fun p hp => ?_⟩⟩
    · rcases List.mem_cons.1 hmem with rfl | hmem
      · exact hnm rfl
      · exact behind m hmem hm
    · exact fun hu => (mem_unsettled_settle.1 hu).1 rfl
    · exact still (behind p hp)

theorem Simple.run (hs : Simple s) (h : Consistent g o goal origin s)
    (hr : Search.run g o goal s = some l) : (visits goal l.back).Nodup := by
  fun_induction Search.run g o goal s with
  | case1 => cases hr
  | case2 s k hn =>
    cases hr
    exact (hs goal l (next?_mem hn).2).1
  | case3 s n k hn hne ih => exact ih (hs.settle h hn) (h.settle hn hne) hr

end Search

namespace Network

variable {g : Network} {o : RouteOptions} {goal origin : NodeId} {route : Route}

/-! ## Answers -/

theorem shortestRoute_self (o : RouteOptions) (h : origin ∈ g.nodeMap) :
    g.shortestRoute o origin origin = some ⟨[origin], [], 0, 0⟩ := by
  rw [shortestRoute, if_pos ⟨contains_iff.2 h, contains_iff.2 h⟩, if_pos rfl]

theorem shortestRoute_unknown (o : RouteOptions)
    (h : ¬ (origin ∈ g.nodeMap ∧ goal ∈ g.nodeMap)) : g.shortestRoute o origin goal = none := by
  rw [shortestRoute, if_neg]
  rwa [contains_iff, contains_iff]

theorem known_of_shortestRoute (h : g.shortestRoute o origin goal = some route) :
    origin ∈ g.nodeMap ∧ goal ∈ g.nodeMap := by
  by_contra unknown
  rw [shortestRoute_unknown o unknown] at h
  cases h

/-- A route that answers a query: a permitted walk without repeated nodes, with its edges by name,
its cost and its length, and no dearer than any other. -/
structure Answers (g : Network) (o : RouteOptions) (origin goal : NodeId) (route : Route) : Prop
    where
  walk : ∃ es, g.Permitted o goal origin route.nodes es ∧ route.edges = es.map Edge.ends ∧
    route.cost = total o.objective.cost es ∧ route.totalLength = total Edge.length es
  simple : route.nodes.Nodup
  between : route.edges = List.zipWith Ends.of route.nodes route.nodes.tail
  least : ∀ ns es, g.Permitted o goal origin ns es → route.cost ≤ total o.objective.cost es

theorem answers_of_label {l : Label} (hw : g.Way o goal origin goal l.back)
    (hc : l.cost = o.costOf l.back) (simple : (visits goal l.back).Nodup)
    (least : ∀ hops, g.Way o goal origin goal hops → l.cost ≤ o.costOf hops) :
    g.Answers o origin goal (l.route goal) := by
  have walk := Permitted.of_way hw .here
  rw [List.append_nil, ← List.reverse_cons] at walk
  have edges : (l.route goal).edges = (l.back.map Hop.edge).reverse.map Edge.ends := by
    rw [List.map_reverse, List.map_map]
    rfl
  refine ⟨⟨_, walk, edges, ?_, ?_⟩, ?_, ?_, forall_way_iff.1 least⟩
  · exact hc.trans (costOf_eq o l.back)
  · rw [total_reverse, total_map]
    rfl
  · exact List.nodup_reverse.2 simple
  · rw [edges, walk.ends_eq]
    rfl

/-- Edges and nodes that fit half a word have lengths whose sum fits a word. -/
theorem Answers.totalLength_le (h : g.Answers o origin goal route) (hg : goal ∈ g.nodeMap)
    (edges : ∀ e ∈ g.edges, e.length < UInt32.size) (nodes : g.nodeCount < UInt32.size) :
    route.totalLength ≤ maxWord := by
  obtain ⟨es, hp, -, -, hlength⟩ := h.walk
  have long := hp.total_le hg h.simple fun e he => Nat.le_pred_of_lt (edges e he)
  have few : (g.nodeCount - 1) * UInt32.size.pred ≤ UInt32.size * UInt32.size.pred :=
    Nat.mul_le_mul_right _ (by omega)
  have square : UInt32.size * UInt32.size.pred ≤ maxWord := by decide
  omega

/-- When a query between known nodes is not answered. -/
theorem shortestRoute_eq_none_iff (ho : origin ∈ g.nodeMap) (hg : goal ∈ g.nodeMap) :
    g.shortestRoute o origin goal = none ↔
      ∀ ns es, g.Permitted o goal origin ns es → maxWord ≤ total o.objective.cost es := by
  by_cases hne : origin = goal
  · subst hne
    rw [shortestRoute_self o ho]
    refine iff_of_false nofun fun h => ?_
    have none : maxWord ≤ 0 := h _ _ .here
    exact absurd none (by decide)
  · rw [← forall_way_iff, ← Option.not_isSome_iff_eq_none, isSome_shortestRoute_iff ho hg hne]
    simp only [not_exists, not_and, Nat.not_lt]

/-- The answer to a query between known nodes. -/
theorem answers_of_shortestRoute (ho : origin ∈ g.nodeMap) (hg : goal ∈ g.nodeMap)
    (h : g.shortestRoute o origin goal = some route) : g.Answers o origin goal route := by
  by_cases hne : origin = goal
  · subst hne
    rw [shortestRoute_self o ho] at h
    cases h
    exact answers_of_label (l := ⟨0, []⟩) .here rfl (List.pairwise_singleton _ _)
      fun _ _ => Nat.zero_le _
  · have start := Search.consistent_start (o := o) ho hg
    have spec := start.run_spec
    rw [shortestRoute_of_ne ho hg hne] at h
    cases hr : Search.run g o goal (Search.start g origin) with
    | none =>
      rw [hr] at h
      cases h
    | some l =>
      rw [hr] at h spec
      cases h
      obtain ⟨hway, hcost, -, hle⟩ := spec
      exact answers_of_label hway hcost ((Search.simple_start g origin).run start hr) hle

/-- **Route queries are answered exactly.**  There is no answer if and only if an end is unknown or
every permitted walk costs the largest word or more.  An answer is a permitted walk without repeated
nodes, with the names of the edges between them, its exact cost and length, and no permitted walk
costs less.  A known node is reached from itself at once, also if it is to be avoided.  Where edges
and nodes fit half a word, the length fits a word. -/
theorem shortestRoute_exact (g : Network) (o : RouteOptions) (origin goal : NodeId) :
    (g.shortestRoute o origin goal = none ↔ origin ∉ g.nodeMap ∨ goal ∉ g.nodeMap ∨
        ∀ ns es, g.Permitted o goal origin ns es → maxWord ≤ total o.objective.cost es) ∧
      (∀ route, g.shortestRoute o origin goal = some route → g.Answers o origin goal route ∧
        ((∀ e ∈ g.edges, e.length < UInt32.size) → g.nodeCount < UInt32.size →
          route.totalLength ≤ maxWord)) ∧
      (origin = goal → origin ∈ g.nodeMap →
        g.shortestRoute o origin goal = some ⟨[origin], [], 0, 0⟩) := by
  by_cases known : origin ∈ g.nodeMap ∧ goal ∈ g.nodeMap
  · obtain ⟨ho, hg⟩ := known
    refine ⟨?none, fun route h => ?some, ?self⟩
    case none => simp only [shortestRoute_eq_none_iff ho hg, ho, hg, not_true_eq_false, false_or]
    case some =>
      have answers := answers_of_shortestRoute ho hg h
      exact ⟨answers, answers.totalLength_le hg⟩
    case self =>
      rintro rfl -
      exact shortestRoute_self o ho
  · have unanswered := shortestRoute_unknown o known
    rw [unanswered]
    refine ⟨iff_of_true rfl ?_, nofun, ?_⟩
    · rw [← or_assoc]
      exact Or.inl (Decidable.not_and_iff_or_not.1 known)
    · rintro rfl ho
      exact absurd ⟨ho, ho⟩ known

end Network

end Signalbox
