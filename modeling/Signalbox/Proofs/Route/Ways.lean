import Signalbox.Route.Search

/-!
# Ways through a network

A way leads from an origin to a node over hops, each along an edge that may be left towards a node
that the query permits.  Hops are listed as labels keep them, the last one first.

* `Network.mem_exits`         : which edges lead on from a node;
* `Network.Way.exists_simple` : where there is a way there is one that visits no node twice.
-/

set_option autoImplicit false

namespace Signalbox

/-- What hops cost under the terms of a query. -/
def RouteOptions.costOf (o : RouteOptions) (hops : List Hop) : Nat :=
  total (fun h => o.objective.cost h.edge) hops

@[simp] theorem RouteOptions.costOf_nil (o : RouteOptions) : o.costOf [] = 0 := rfl

@[simp] theorem RouteOptions.costOf_cons (o : RouteOptions) (h : Hop) (hops : List Hop) :
    o.costOf (h :: hops) = o.objective.cost h.edge + o.costOf hops := rfl

namespace Network

variable {g : Network} {o : RouteOptions} {goal origin n m : NodeId} {e : Edge} {hops : List Hop}

/-! ## Leading on -/

theorem touches_of_target? (h : e.target? n = some m) : e.touches n = true := by
  unfold Edge.touches
  rcases Edge.target?_eq_some.1 h with ⟨hs, -⟩ | ⟨-, -, ht, -⟩
  · simp [hs]
  · simp [ht]

theorem exit?_eq_some :
    o.exit? goal n e = some m ↔ e.target? n = some m ∧ (m = goal ∨ m ∉ o.avoid) := by
  unfold RouteOptions.exit?
  cases e.target? n with
  | none => simp
  | some k =>
    show (if k ≠ goal ∧ k ∈ o.avoid then none else some k) = some m ↔ _
    by_cases shut : k ≠ goal ∧ k ∈ o.avoid
    · rw [if_pos shut]
      simp only [reduceCtorEq, Option.some.injEq, false_iff, not_and, not_or, Decidable.not_not]
      rintro rfl
      exact shut
    · rw [if_neg shut, Option.some.injEq, iff_self_and]
      rintro rfl
      by_cases hg : k = goal
      · exact Or.inl hg
      · exact Or.inr fun ha => shut ⟨hg, ha⟩

theorem mem_exits :
    (e, m) ∈ g.exits o goal n ↔
      e ∈ g.edges ∧ e.target? n = some m ∧ (m = goal ∨ m ∉ o.avoid) := by
  simp only [exits, List.mem_filterMap, Option.map_eq_some_iff, Prod.mk.injEq]
  constructor
  · rintro ⟨d, hd, k, hk, rfl, rfl⟩
    exact ⟨(mem_edgesOf.1 hd).1, exit?_eq_some.1 hk⟩
  · rintro ⟨he, ht⟩
    exact ⟨e, mem_edgesOf.2 ⟨he, touches_of_target? ht.1⟩, m, exit?_eq_some.2 ht, rfl, rfl⟩

theorem known_of_target? (he : e ∈ g.edges) (ht : e.target? n = some m) :
    n ∈ g.nodeMap ∧ m ∈ g.nodeMap ∧ n ≠ m := by
  obtain ⟨hne, hs, hd⟩ := g.edge_known _ e (mem_edges.1 he)
  rcases Edge.target?_eq_some.1 ht with ⟨rfl, rfl⟩ | ⟨-, -, rfl, rfl⟩
  · exact ⟨hs, hd, hne⟩
  · exact ⟨hd, hs, hne.symm⟩

theorem known_of_mem_exits (h : (e, m) ∈ g.exits o goal n) : m ∈ g.nodeMap :=
  (known_of_target? (mem_exits.1 h).1 (mem_exits.1 h).2.1).2.1

/-! ## Ways -/

/-- Hops, the last one first, lead from the origin to a node. -/
inductive Way (g : Network) (o : RouteOptions) (goal origin : NodeId) : NodeId → List Hop → Prop
  | here : Way g o goal origin origin []
  | hop {n m : NodeId} {e : Edge} {hops : List Hop} :
    Way g o goal origin n hops → (e, m) ∈ g.exits o goal n →
      Way g o goal origin m (⟨e, n⟩ :: hops)

/-- The nodes of a way to a node, the last one first. -/
def visits (m : NodeId) (hops : List Hop) : List NodeId := m :: hops.map Hop.origin

namespace Way

/-- A way leads to each of its nodes, and goes on from there. -/
theorem exists_part (h : g.Way o goal origin m hops) (hn : n ∈ visits m hops) :
    ∃ part, g.Way o goal origin n part ∧ visits n part <:+ visits m hops := by
  induction h with
  | here =>
    cases List.mem_singleton.1 hn
    exact ⟨[], .here, List.suffix_rfl⟩
  | @hop k m e hops hw he ih =>
    rcases List.mem_cons.1 hn with rfl | hn
    · exact ⟨_, .hop hw he, List.suffix_rfl⟩
    · obtain ⟨part, hp, hs⟩ := ih hn
      exact ⟨part, hp, hs.trans (List.suffix_cons _ _)⟩

theorem known (h : g.Way o goal origin m hops) : ∀ n ∈ hops.map Hop.origin, n ∈ g.nodeMap := by
  induction h with
  | here => simp
  | hop _ he ih =>
    rw [List.map_cons, List.forall_mem_cons]
    exact ⟨(known_of_target? (mem_exits.1 he).1 (mem_exits.1 he).2.1).1, ih⟩

/-- **Where there is a way there is one that visits no node twice.** -/
theorem exists_simple (h : g.Way o goal origin m hops) :
    ∃ short, g.Way o goal origin m short ∧ (visits m short).Nodup := by
  induction h with
  | here => exact ⟨[], .here, List.pairwise_singleton _ _⟩
  | @hop n m e hops _ he ih =>
    obtain ⟨short, hw, hs⟩ := ih
    by_cases hm : m ∈ visits n short
    · obtain ⟨part, hp, hsuf⟩ := hw.exists_part hm
      exact ⟨part, hp, hs.sublist hsuf.sublist⟩
    · exact ⟨⟨e, n⟩ :: short, .hop hw he, List.nodup_cons.2 ⟨hm, hs⟩⟩

end Way

end Network

end Signalbox
