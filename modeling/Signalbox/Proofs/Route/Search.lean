import Signalbox.Proofs.Lookup
import Signalbox.Proofs.Route.Ways

/-!
# The search finds the cheapest ways

Between two settled nodes every label describes a way and its cost, settled nodes cost no more than
labelled ones that are not settled, and ways over a settled node are offered to the nodes they lead
to.  So the first node of every way that is not settled has a label no dearer than the way, and the
goal is settled with the cost of its cheapest way.

* `Search.Consistent`        : the invariant of a search;
* `Search.Consistent.settle` : settling the next node keeps it;
* `Search.Consistent.front`  : a way to a node that is not settled has a labelled node that waits;
* `Network.isSome_shortestRoute_iff`, `Network.shortestRoute_spec` : the answer to a route query.
-/

set_option autoImplicit false

namespace Signalbox

namespace Search

variable {g : Network} {o : RouteOptions} {goal origin n m : NodeId} {e : Edge} {hops : List Hop}
  {s : Search} {l k : Label} {labels : Std.ExtTreeMap NodeId Label} {exits : List (Edge × NodeId)}

/-! ## Offers -/

theorem costTo_of_some (h : labels[m]? = some k) : costTo labels m = k.cost := by
  simp [costTo, h]

theorem costTo_of_none (h : labels[m]? = none) : costTo labels m = maxWord := by
  simp [costTo, h]

theorem getElem?_relax (o : RouteOptions) (n : NodeId) (l : Label)
    (labels : Std.ExtTreeMap NodeId Label) (e : Edge) (m p : NodeId) :
    (relax o n l labels (e, m))[p]? =
      if m = p ∧ addCost l.cost (o.objective.cost e) < costTo labels m then
        some ⟨addCost l.cost (o.objective.cost e), ⟨e, n⟩ :: l.back⟩
      else labels[p]? := by
  unfold relax
  simp only
  by_cases hc : addCost l.cost (o.objective.cost e) < costTo labels m
  · rw [if_pos hc, lookup_insert]
    simp only [hc, and_true]
  · rw [if_neg hc, if_neg fun h => hc h.2]

theorem keep_relax (hl : l.cost ≤ maxWord) (hm : labels[m]? = some k) (hk : k.cost ≤ l.cost) :
    (exits.foldl (relax o n l) labels)[m]? = some k := by
  induction exits generalizing labels with
  | nil => exact hm
  | cons x exits ih =>
    obtain ⟨e, p⟩ := x
    refine ih ?_
    rw [getElem?_relax, if_neg, hm]
    rintro ⟨rfl, hc⟩
    rw [costTo_of_some hm, addCost] at hc
    omega

theorem exists_relax_le (o : RouteOptions) (n : NodeId) (l : Label)
    (exits : List (Edge × NodeId)) (hm : labels[m]? = some k) :
    ∃ k', (exits.foldl (relax o n l) labels)[m]? = some k' ∧ k'.cost ≤ k.cost := by
  induction exits generalizing labels k with
  | nil => exact ⟨k, hm, Nat.le_refl _⟩
  | cons x exits ih =>
    obtain ⟨e, p⟩ := x
    by_cases hc : p = m ∧ addCost l.cost (o.objective.cost e) < costTo labels p
    · have better : (relax o n l labels (e, p))[m]? =
          some ⟨addCost l.cost (o.objective.cost e), ⟨e, n⟩ :: l.back⟩ := by
        rw [getElem?_relax, if_pos hc]
      obtain ⟨k', hk', hle⟩ := ih better
      refine ⟨k', hk', Nat.le_trans hle (Nat.le_of_lt ?_)⟩
      rw [hc.1, costTo_of_some hm] at hc
      exact hc.2
    · have same : (relax o n l labels (e, p))[m]? = some k := by
        rw [getElem?_relax, if_neg hc, hm]
      exact ih same

/-- What is offered to a node costs at least as much as its label afterwards. -/
theorem exists_relax_le_offer (he : (e, m) ∈ exits)
    (hlt : l.cost + o.objective.cost e < maxWord) :
    ∃ k, (exits.foldl (relax o n l) labels)[m]? = some k ∧
      k.cost ≤ l.cost + o.objective.cost e := by
  have sum : addCost l.cost (o.objective.cost e) = l.cost + o.objective.cost e :=
    Nat.min_eq_left (Nat.le_of_lt hlt)
  induction exits generalizing labels with
  | nil => cases he
  | cons x exits ih =>
    rcases List.mem_cons.1 he with rfl | he
    · obtain ⟨k, hk, hle⟩ : ∃ k, (relax o n l labels (e, m))[m]? = some k ∧
          k.cost ≤ l.cost + o.objective.cost e := by
        rw [getElem?_relax, sum]
        by_cases hc : l.cost + o.objective.cost e < costTo labels m
        · exact ⟨_, if_pos ⟨rfl, hc⟩, Nat.le_refl _⟩
        · rw [if_neg fun h => hc h.2]
          cases hm : labels[m]? with
          | none =>
            rw [costTo_of_none hm] at hc
            exact absurd hlt hc
          | some k =>
            rw [costTo_of_some hm] at hc
            exact ⟨k, rfl, Nat.not_lt.1 hc⟩
      obtain ⟨k', hk', hle'⟩ := exists_relax_le o n l exits hk
      exact ⟨k', hk', Nat.le_trans hle' hle⟩
    · exact ih he

/-- A label after some offers was there before, or was offered. -/
theorem source_of_relax (bound : ∀ (p : NodeId) (k : Label), labels[p]? = some k → k.cost ≤ maxWord)
    (hm : (exits.foldl (relax o n l) labels)[m]? = some k) :
    labels[m]? = some k ∨ ∃ e, (e, m) ∈ exits ∧
      k = ⟨l.cost + o.objective.cost e, ⟨e, n⟩ :: l.back⟩ ∧ k.cost < maxWord := by
  induction exits generalizing labels with
  | nil => exact Or.inl hm
  | cons x exits ih =>
    obtain ⟨e, p⟩ := x
    have below : costTo labels p ≤ maxWord := by
      cases hp : labels[p]? with
      | none => exact Nat.le_of_eq (costTo_of_none hp)
      | some q => exact costTo_of_some hp ▸ bound p q hp
    have offered {q : NodeId} {k : Label} (hq : (relax o n l labels (e, p))[q]? = some k) :
        labels[q]? = some k ∨
          (p = q ∧ k = ⟨l.cost + o.objective.cost e, ⟨e, n⟩ :: l.back⟩ ∧ k.cost < maxWord) := by
      rw [getElem?_relax] at hq
      by_cases hc : p = q ∧ addCost l.cost (o.objective.cost e) < costTo labels p
      · rw [if_pos hc] at hq
        cases hq
        have sum : l.cost + o.objective.cost e < maxWord ∧
            addCost l.cost (o.objective.cost e) = l.cost + o.objective.cost e := by
          have := hc.2
          unfold addCost at this ⊢
          omega
        rw [sum.2]
        exact Or.inr ⟨hc.1, rfl, sum.1⟩
      · rw [if_neg hc] at hq
        exact Or.inl hq
    have bound' (q : NodeId) (k : Label) (hq : (relax o n l labels (e, p))[q]? = some k) :
        k.cost ≤ maxWord := by
      rcases offered hq with hq | ⟨-, -, hlt⟩
      · exact bound q k hq
      · exact Nat.le_of_lt hlt
    rcases ih bound' hm with hm | ⟨d, hd, hk⟩
    · rcases offered hm with hm | ⟨rfl, hk⟩
      · exact Or.inl hm
      · exact Or.inr ⟨e, List.mem_cons_self .., hk⟩
    · exact Or.inr ⟨d, List.mem_cons_of_mem _ hd, hk⟩

/-! ## The invariant -/

theorem next?_le (h : s.next? = some (n, l)) (hm : m ∈ s.unsettled)
    (hk : s.labels[m]? = some k) : l.cost ≤ k.cost := by
  have mem : (m, k) ∈ s.unsettledLabels := by
    rw [unsettledLabels, List.mem_filter]
    exact ⟨Std.ExtTreeMap.mem_toList_iff_getElem?_eq_some.2 hk, decide_eq_true hm⟩
  have least := List.apply_get_minOn?_le_of_mem (f := fun p : NodeId × Label => p.2.cost) mem
  unfold next? at h
  simpa [h] using least

theorem next?_eq_none_iff : s.next? = none ↔
    ∀ (m : NodeId) (k : Label), s.labels[m]? = some k → m ∉ s.unsettled := by
  unfold next?
  rw [← Option.not_isSome_iff_eq_none, List.isSome_minOn?_iff, Decidable.not_not,
    List.eq_nil_iff_forall_not_mem]
  constructor
  · intro h m k hk hm
    refine h (m, k) ?_
    rw [unsettledLabels, List.mem_filter]
    exact ⟨Std.ExtTreeMap.mem_toList_iff_getElem?_eq_some.2 hk, decide_eq_true hm⟩
  · rintro h ⟨m, k⟩ hmem
    rw [unsettledLabels, List.mem_filter] at hmem
    exact h m k (Std.ExtTreeMap.mem_toList_iff_getElem?_eq_some.1 hmem.1)
      (of_decide_eq_true hmem.2)

/-- What holds whenever the next node is about to be settled. -/
structure Consistent (g : Network) (o : RouteOptions) (goal origin : NodeId) (s : Search) : Prop
    where
  /-- A label describes a way and what it costs. -/
  ways (n : NodeId) (l : Label) : s.labels[n]? = some l →
    g.Way o goal origin n l.back ∧ l.cost = o.costOf l.back ∧ l.cost < maxWord
  /-- The origin is reached at no cost. -/
  origin : ∃ l, s.labels[origin]? = some l ∧ l.cost = 0
  known (n : NodeId) (l : Label) : s.labels[n]? = some l → n ∈ g.nodeMap
  /-- A settled node has a label. -/
  settled (n : NodeId) : n ∈ g.nodeMap → n ∉ s.unsettled → ∃ l, s.labels[n]? = some l
  /-- Settled nodes cost no more than those that wait. -/
  sorted (n : NodeId) (l : Label) : s.labels[n]? = some l → n ∉ s.unsettled →
    ∀ m k, s.labels[m]? = some k → m ∈ s.unsettled → l.cost ≤ k.cost
  /-- Where a settled node leads is labelled, no dearer than over that node. -/
  relaxed (n : NodeId) (l : Label) : s.labels[n]? = some l → n ∉ s.unsettled →
    ∀ e m, (e, m) ∈ g.exits o goal n → l.cost + o.objective.cost e < maxWord →
      ∃ k, s.labels[m]? = some k ∧ k.cost ≤ l.cost + o.objective.cost e
  /-- The goal is not settled. -/
  waits : goal ∈ s.unsettled

theorem getElem?_labels_start :
    (start g origin).labels[n]? = some l ↔ n = origin ∧ l = ⟨0, []⟩ := by
  have single :
      (start g origin).labels = (∅ : Std.ExtTreeMap NodeId Label).insert origin ⟨0, []⟩ :=
    Std.ExtTreeMap.ofList_singleton
  rw [single, lookup_insert]
  by_cases hn : origin = n
  · simp [hn, eq_comm]
  · simp [hn, Ne.symm hn]

theorem mem_unsettled_start : n ∈ (start g origin).unsettled ↔ n ∈ g.nodeMap := by
  simp [start]

theorem consistent_start (ho : origin ∈ g.nodeMap) (hg : goal ∈ g.nodeMap) :
    Consistent g o goal origin (start g origin) := by
  refine ⟨?ways, ⟨⟨0, []⟩, getElem?_labels_start.2 ⟨rfl, rfl⟩, rfl⟩, ?known, ?settled, ?sorted,
    ?relaxed, mem_unsettled_start.2 hg⟩
  case ways =>
    intro n l h
    obtain ⟨rfl, rfl⟩ := getElem?_labels_start.1 h
    exact ⟨.here, rfl, by decide⟩
  case known =>
    intro n l h
    obtain ⟨rfl, rfl⟩ := getElem?_labels_start.1 h
    exact ho
  case settled =>
    exact fun n hn hs => absurd (mem_unsettled_start.2 hn) hs
  case sorted =>
    intro n l h hs
    obtain ⟨rfl, rfl⟩ := getElem?_labels_start.1 h
    exact absurd (mem_unsettled_start.2 ho) hs
  case relaxed =>
    intro n l h hs
    obtain ⟨rfl, rfl⟩ := getElem?_labels_start.1 h
    exact absurd (mem_unsettled_start.2 ho) hs

theorem mem_unsettled_settle :
    m ∈ (s.settle g o goal n l).unsettled ↔ n ≠ m ∧ m ∈ s.unsettled := mem_erase_iff

namespace Consistent

/-- A label after a node is settled was there before, or leads over that node. -/
theorem source (h : Consistent g o goal origin s)
    (hk : (s.settle g o goal n l).labels[m]? = some k) :
    s.labels[m]? = some k ∨ ∃ e, (e, m) ∈ g.exits o goal n ∧
      k = ⟨l.cost + o.objective.cost e, ⟨e, n⟩ :: l.back⟩ ∧ k.cost < maxWord :=
  source_of_relax (fun p k hp => Nat.le_of_lt (h.ways p k hp).2.2) hk

theorem known_settle (h : Consistent g o goal origin s)
    (hk : (s.settle g o goal n l).labels[m]? = some k) : m ∈ g.nodeMap := by
  rcases h.source hk with hk | ⟨e, he, -⟩
  · exact h.known m k hk
  · exact Network.known_of_mem_exits he

theorem self_settle (h : Consistent g o goal origin s) (hl : s.labels[n]? = some l) :
    (s.settle g o goal n l).labels[n]? = some l :=
  keep_relax (Nat.le_of_lt (h.ways n l hl).2.2) hl (Nat.le_refl _)

/-- Settled nodes keep their labels, which cost no more than that of the next node. -/
theorem kept_settle (h : Consistent g o goal origin s) (hn : s.next? = some (n, l))
    (hk : (s.settle g o goal n l).labels[m]? = some k) (hm : m ∉ s.unsettled) :
    s.labels[m]? = some k ∧ k.cost ≤ l.cost := by
  obtain ⟨hwait, hl⟩ := next?_mem hn
  obtain ⟨k', hk'⟩ := h.settled m (h.known_settle hk) hm
  have hle := h.sorted m k' hk' hm n l hl hwait
  have kept : (s.settle g o goal n l).labels[m]? = some k' :=
    keep_relax (Nat.le_of_lt (h.ways n l hl).2.2) hk' hle
  rw [hk] at kept
  cases kept
  exact ⟨hk', hle⟩

end Consistent

/-- **Settling the next node keeps the invariant.** -/
theorem Consistent.settle (h : Consistent g o goal origin s) (hn : s.next? = some (n, l))
    (hne : n ≠ goal) : Consistent g o goal origin (s.settle g o goal n l) := by
  obtain ⟨-, hl⟩ := next?_mem hn
  obtain ⟨hway, hcost, hlt⟩ := h.ways n l hl
  have self := h.self_settle hl
  have unsettled {m : NodeId} (hm : m ∉ (s.settle g o goal n l).unsettled) (hnm : n ≠ m) :
      m ∉ s.unsettled :=
    fun hu => hm (mem_unsettled_settle.2 ⟨hnm, hu⟩)
  refine ⟨?ways, ?origin, fun _ _ => h.known_settle, ?settled, ?sorted, ?relaxed,
    mem_unsettled_settle.2 ⟨hne, h.waits⟩⟩
  case ways =>
    intro m k hk
    rcases h.source hk with hk | ⟨e, he, rfl, hlt'⟩
    · exact h.ways m k hk
    · exact ⟨.hop hway he, by rw [RouteOptions.costOf_cons, ← hcost, Nat.add_comm], hlt'⟩
  case origin =>
    obtain ⟨k, hk, hz⟩ := h.origin
    exact ⟨k, keep_relax (Nat.le_of_lt hlt) hk (by omega), hz⟩
  case settled =>
    intro m hm hs
    by_cases hnm : n = m
    · exact ⟨l, hnm ▸ self⟩
    · obtain ⟨k, hk⟩ := h.settled m hm (unsettled hs hnm)
      obtain ⟨k', hk', -⟩ := exists_relax_le o n l (g.exits o goal n) hk
      exact ⟨k', hk'⟩
  case sorted =>
    intro m k hk hs p q hq hp
    obtain ⟨hnp, hpu⟩ := mem_unsettled_settle.1 hp
    have low : k.cost ≤ l.cost := by
      by_cases hnm : n = m
      · subst hnm
        rw [self] at hk
        cases hk
        exact Nat.le_refl _
      · exact (h.kept_settle hn hk (unsettled hs hnm)).2
    rcases h.source hq with hq | ⟨e, -, rfl, -⟩
    · exact Nat.le_trans low (next?_le hn hpu hq)
    · exact Nat.le_trans low (Nat.le_add_right _ _)
  case relaxed =>
    intro m k hk hs e p he hlt'
    by_cases hnm : n = m
    · subst hnm
      rw [self] at hk
      cases hk
      exact exists_relax_le_offer he hlt'
    · have hm := unsettled hs hnm
      obtain ⟨q, hq, hle⟩ := h.relaxed m k (h.kept_settle hn hk hm).1 hm e p he hlt'
      obtain ⟨q', hq', hle'⟩ := exists_relax_le o n l (g.exits o goal n) hq
      exact ⟨q', hq', Nat.le_trans hle' hle⟩

/-- A way that costs less than the largest word leads to a settled node whose label is no dearer, or
past a node that waits with a label no dearer. -/
theorem Consistent.front (h : Consistent g o goal origin s) (hw : g.Way o goal origin m hops)
    (hlt : o.costOf hops < maxWord) :
    (m ∉ s.unsettled ∧ ∃ k, s.labels[m]? = some k ∧ k.cost ≤ o.costOf hops) ∨
      ∃ p k, p ∈ s.unsettled ∧ s.labels[p]? = some k ∧ k.cost ≤ o.costOf hops := by
  induction hw with
  | here =>
    obtain ⟨k, hk, hz⟩ := h.origin
    by_cases ho : origin ∈ s.unsettled
    · exact Or.inr ⟨origin, k, ho, hk, by omega⟩
    · exact Or.inl ⟨ho, k, hk, by omega⟩
  | @hop n m e hops hw he ih =>
    have cost : o.costOf (⟨e, n⟩ :: hops) = o.objective.cost e + o.costOf hops := rfl
    rw [cost] at hlt ⊢
    rcases ih (by omega) with ⟨hn, k, hk, hle⟩ | ⟨p, k, hp, hk, hle⟩
    · obtain ⟨q, hq, hqle⟩ := h.relaxed n k hk hn e m he (by omega)
      by_cases hm : m ∈ s.unsettled
      · exact Or.inr ⟨m, q, hm, hq, by omega⟩
      · exact Or.inl ⟨hm, q, hq, by omega⟩
    · exact Or.inr ⟨p, k, hp, hk, by omega⟩

/-- What a search for the goal finds: the cheapest way there, if any costs less than the largest
word. -/
theorem Consistent.run_spec (h : Consistent g o goal origin s) :
    match run g o goal s with
    | none => ∀ hops, g.Way o goal origin goal hops → maxWord ≤ o.costOf hops
    | some l => g.Way o goal origin goal l.back ∧ l.cost = o.costOf l.back ∧ l.cost < maxWord ∧
        ∀ hops, g.Way o goal origin goal hops → l.cost ≤ o.costOf hops := by
  fun_induction run g o goal s with
  | case1 s hn =>
    intro hops hw
    apply Nat.not_lt.1
    intro hlt
    rcases h.front hw hlt with ⟨hs, -⟩ | ⟨p, k, hp, hk, -⟩
    · exact hs h.waits
    · exact next?_eq_none_iff.1 hn p k hk hp
  | case2 s l hn =>
    obtain ⟨hway, hcost, hlt⟩ := h.ways goal l (next?_mem hn).2
    refine ⟨hway, hcost, hlt, fun hops hw => ?_⟩
    apply Nat.not_lt.1
    intro hless
    rcases h.front hw (Nat.lt_trans hless hlt) with ⟨hs, -⟩ | ⟨p, k, hp, hk, hle⟩
    · exact hs h.waits
    · have least := next?_le hn hp hk
      omega
  | case3 s n l hn hne ih => exact ih (h.settle hn hne)

end Search

namespace Network

variable {g : Network} {o : RouteOptions} {goal origin : NodeId} {route : Route}

theorem contains_iff {i : NodeId} : g.contains i = true ↔ i ∈ g.nodeMap := decide_eq_true_iff

theorem shortestRoute_of_ne (ho : origin ∈ g.nodeMap) (hg : goal ∈ g.nodeMap)
    (hne : origin ≠ goal) :
    g.shortestRoute o origin goal =
      (Search.run g o goal (Search.start g origin)).map (Label.route goal) := by
  rw [shortestRoute, if_pos ⟨contains_iff.2 ho, contains_iff.2 hg⟩, if_neg hne]

/-- **A query between different known nodes is answered** exactly if some way costs less than the
largest word. -/
theorem isSome_shortestRoute_iff (ho : origin ∈ g.nodeMap) (hg : goal ∈ g.nodeMap)
    (hne : origin ≠ goal) :
    (g.shortestRoute o origin goal).isSome = true ↔
      ∃ hops, g.Way o goal origin goal hops ∧ o.costOf hops < maxWord := by
  have spec := (Search.consistent_start (o := o) ho hg).run_spec
  rw [shortestRoute_of_ne ho hg hne, Option.isSome_map]
  cases hr : Search.run g o goal (Search.start g origin) with
  | none =>
    rw [hr] at spec
    simp only [Option.isSome_none, Bool.false_eq_true, false_iff, not_exists, not_and]
    exact fun hops hw => Nat.not_lt.2 (spec hops hw)
  | some l =>
    rw [hr] at spec
    simp only [Option.isSome_some, true_iff]
    exact ⟨l.back, spec.1, spec.2.1 ▸ spec.2.2.1⟩

/-- **The answer describes a way that no other way beats.** -/
theorem shortestRoute_spec (hne : origin ≠ goal) (h : g.shortestRoute o origin goal = some route) :
    ∃ hops, g.Way o goal origin goal hops ∧ route = Label.route goal ⟨o.costOf hops, hops⟩ ∧
      route.cost < maxWord ∧
      ∀ other, g.Way o goal origin goal other → route.cost ≤ o.costOf other := by
  have known : origin ∈ g.nodeMap ∧ goal ∈ g.nodeMap := by
    rw [← contains_iff, ← contains_iff]
    apply Decidable.byContradiction
    intro hn
    rw [shortestRoute, if_neg hn] at h
    cases h
  have spec := (Search.consistent_start (o := o) known.1 known.2).run_spec
  rw [shortestRoute_of_ne known.1 known.2 hne] at h
  cases hr : Search.run g o goal (Search.start g origin) with
  | none =>
    rw [hr] at h
    cases h
  | some l =>
    rw [hr] at h spec
    cases h
    obtain ⟨hway, hcost, hlt, hle⟩ := spec
    exact ⟨l.back, hway, by rw [← hcost], hlt, hle⟩

end Network

end Signalbox
