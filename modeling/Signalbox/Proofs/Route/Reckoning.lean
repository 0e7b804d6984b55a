import Signalbox.Proofs.Network.Chart
import Signalbox.Proofs.Route.Canonical
import Signalbox.Route.Reckoning

/-!
# A chart answers route queries as its network does

A search on a chart knows at every turn what the search on the network knows (`Reckons`): its costs
are those of the labels, and a passage is the last hop of its label, whose other hops are the label
of the settled node that it starts from.  Every labelled node that waits has an entry with the cost
of its label in the heap, and all other entries are late: they cost more than the label of their
node.  Slots ascend by name, so the first entry of the heap is late, or it belongs to the node that
is settled next.

* `Reckons.reach`, `Reckons.settle` : offers and turns keep what is known in step;
* `Reckons.next?_of_pop?`           : whose turn it is when an entry is handed out;
* `Reckons.retrace?_eq`             : a way that is followed back is that of the label;
* `Network.chart_routes`            : no slot is missing, and the answers are the same.
-/

set_option autoImplicit false

namespace Signalbox

/-! ## Slots -/

namespace Chart.Complete

variable {g : Network} {ch : Chart} {m n : NodeId} {i j : Nat}

theorem slot_injective (h : ch.Complete g) (hm : ch.nodeSlots[m]? = some i)
    (hn : ch.nodeSlots[n]? = some i) : m = n := by
  obtain ⟨a, ha, rfl⟩ := (h.nodeSlots m i).1 hm
  exact ((h.slot_eq_iff ha hn).1 rfl).symm

theorem le_of_slot_le (h : ch.Complete g) (hm : ch.nodeSlots[m]? = some i)
    (hn : ch.nodeSlots[n]? = some j) (le : i ≤ j) : m ≤ n := by
  obtain ⟨a, ha, rfl⟩ := (h.nodeSlots m i).1 hm
  obtain ⟨b, hb, rfl⟩ := (h.nodeSlots n j).1 hn
  rcases Nat.lt_or_eq_of_le le with lt | rfl
  · obtain ⟨hi, rfl⟩ := List.getElem?_eq_some_iff.1 ha
    obtain ⟨hj, rfl⟩ := List.getElem?_eq_some_iff.1 hb
    exact (Ident.lt_iff_le_and_ne.1 (List.pairwise_iff_getElem.1 g.sorted_nodes i j hi hj lt)).1
  · rw [ha] at hb
    cases hb
    exact String.le_refl _

theorem known_of_slot (h : ch.Complete g) (hm : ch.nodeSlots[m]? = some i) :
    m ∈ g.nodeMap := by
  obtain ⟨a, ha, rfl⟩ := (h.nodeSlots m i).1 hm
  exact mem_iff_lookup.2 ⟨a, Network.mem_nodes.1 (List.mem_of_getElem? ha)⟩

theorem slot_lt_size (h : ch.Complete g) (hm : ch.nodeSlots[m]? = some i) :
    i < ch.nodes.size := by
  obtain ⟨a, ha, -⟩ := (h.nodeSlots m i).1 hm
  rw [h.nodes]
  exact (List.getElem?_eq_some_iff.1 ha).1

theorem exists_node (h : ch.Complete g) (hm : ch.nodeSlots[m]? = some i) :
    ∃ a, ch.nodes[i]? = some a ∧ a.id = m := by
  obtain ⟨a, ha, same⟩ := (h.nodeSlots m i).1 hm
  exact ⟨a, by rw [h.nodes, List.getElem?_toArray, ha], same⟩

/-- An entry put at the slot of one node shows at the slots of others only where they are the same. -/
theorem getElem?_set {α : Type} {as : Array α} (h : ch.Complete g)
    (hm : ch.nodeSlots[m]? = some i) (hn : ch.nodeSlots[n]? = some j) (inside : i < as.size) (a : α) :
    (as.setIfInBounds i a)[j]? = if m = n then some a else as[j]? := by
  by_cases here : m = n
  · subst here
    rw [hm] at hn
    cases hn
    rw [if_pos rfl, Array.getElem?_setIfInBounds_self_of_lt inside]
  · have apart : i ≠ j := by
      rintro rfl
      exact here (h.slot_injective hm hn)
    rw [if_neg here, Array.getElem?_setIfInBounds_ne apart]

end Chart.Complete

/-! ## Entries -/

namespace Reached

variable {x y : Reached}

theorem isLE_iff : (compare x y).isLE = true ↔
    x.cost < y.cost ∨ (x.cost = y.cost ∧ x.slot ≤ y.slot) := by
  rw [compare_def, Ordering.isLE_then_iff_or, Nat.compare_eq_lt, Nat.compare_eq_eq,
    Nat.isLE_compare]

end Reached

/-! ## What is known -/

/-- How a node was reached over hops, the last one first: at the outset, or over a passage from a
settled node whose label has the other hops. -/
inductive Tells (ch : Chart) (s : Search) : List Hop → Option Passage → Prop
  | outset : Tells ch s [] none
  | passage {e : Edge} {u : NodeId} {l : Label} {p : Passage} :
    ch.edges[p.edge]? = some e → ch.nodeSlots[u]? = some p.origin → u ∉ s.unsettled →
      s.labels[u]? = some l → Tells ch s (⟨e, u⟩ :: l.back) (some p)

/-- Settled nodes keep their labels, so what was told stays. -/
theorem Tells.keep {ch : Chart} {s t : Search} {hops : List Hop} {v : Option Passage}
    (h : Tells ch s hops v)
    (still : ∀ (u : NodeId) (l : Label), u ∉ s.unsettled → s.labels[u]? = some l →
      u ∉ t.unsettled ∧ t.labels[u]? = some l) :
    Tells ch t hops v := by
  cases h with
  | outset => exact .outset
  | @passage e u l p he hu settled hl =>
    obtain ⟨settled', hl'⟩ := still u l settled hl
    exact .passage he hu settled' hl'

/-- A reckoning knows what a search knows. -/
structure Reckons (ch : Chart) (s : Search) (r : Reckoning) : Prop where
  costs (m : NodeId) (i : Nat) : ch.nodeSlots[m]? = some i →
    r.costs[i]? = some (Search.costTo s.labels m)
  via (m : NodeId) (i : Nat) : ch.nodeSlots[m]? = some i →
    ∃ v, r.via[i]? = some v ∧ ∀ l, s.labels[m]? = some l → Tells ch s l.back v
  /-- Every label that waits has an entry. -/
  entered (m : NodeId) (i : Nat) (l : Label) : ch.nodeSlots[m]? = some i →
    s.labels[m]? = some l → m ∈ s.unsettled → ⟨l.cost, i⟩ ∈ r.heap.entries
  /-- All entries were made for labels, which may be cheaper by now. -/
  labelled (x : Reached) : x ∈ r.heap.entries → ∃ m l, ch.nodeSlots[m]? = some x.slot ∧
    s.labels[m]? = some l ∧ l.cost ≤ x.cost ∧ (m ∉ s.unsettled → l.cost < x.cost)
  nodup : r.heap.entries.Nodup

namespace Reckons

variable {g : Network} {ch : Chart} {o : RouteOptions} {goal origin m n : NodeId} {e : Edge}
  {s : Search} {r : Reckoning} {l new : Label} {x : Reached} {heap : Heap Reached} {p : Passage}
  {i j edge : Nat}

theorem start (h : ch.Complete g) (ho : ch.nodeSlots[origin]? = some i) :
    Reckons ch (Search.start g origin) (Reckoning.start ch i) := by
  refine ⟨?costs, ?via, ?entered, ?labelled, List.pairwise_singleton _ _⟩
  case costs =>
    intro m j hm
    have inside : i < (Array.replicate ch.nodes.size maxWord).size := by
      rw [Array.size_replicate]
      exact h.slot_lt_size ho
    refine (h.getElem?_set ho hm inside 0).trans ?_
    split
    · rename_i here
      rw [Search.costTo_of_some (Search.getElem?_labels_start.2 ⟨here.symm, rfl⟩)]
    · rename_i elsewhere
      have none : (Search.start g origin).labels[m]? = none :=
        Option.eq_none_iff_forall_ne_some.2 fun l hl =>
          elsewhere (Search.getElem?_labels_start.1 hl).1.symm
      rw [Search.costTo_of_none none, Array.getElem?_replicate, if_pos (h.slot_lt_size hm)]
  case via =>
    intro m j hm
    refine ⟨none, ?_, fun l hl => ?_⟩
    · show (Array.replicate ch.nodes.size (none : Option Passage))[j]? = some none
      rw [Array.getElem?_replicate, if_pos (h.slot_lt_size hm)]
    · obtain ⟨-, rfl⟩ := Search.getElem?_labels_start.1 hl
      exact .outset
  case entered =>
    intro m j l hm hl _
    obtain ⟨rfl, rfl⟩ := Search.getElem?_labels_start.1 hl
    rw [ho] at hm
    cases hm
    exact List.mem_singleton_self _
  case labelled =>
    intro x hx
    obtain rfl := List.mem_singleton.1 hx
    refine ⟨origin, ⟨0, []⟩, ho, Search.getElem?_labels_start.2 ⟨rfl, rfl⟩, Nat.le_refl _,
      fun settled => ?_⟩
    exact absurd (Search.mem_unsettled_start.2 (h.known_of_slot ho)) settled

/-! ### Offers -/

theorem costs_lt_size (h : Reckons ch s r) (hm : ch.nodeSlots[m]? = some i) :
    i < r.costs.size :=
  (Array.getElem?_eq_some_iff.1 (h.costs m i hm)).1

theorem costs_reach (h : Reckons ch s r) (drawn : ch.Complete g)
    (hm : ch.nodeSlots[m]? = some i) (hn : ch.nodeSlots[n]? = some j) :
    (r.reach i new.cost p).costs[j]? = some (Search.costTo (s.labels.insert m new) n) := by
  refine (drawn.getElem?_set hm hn (h.costs_lt_size hm) new.cost).trans ?_
  rw [Search.costTo, lookup_insert]
  split
  · rfl
  · exact h.costs n j hn

/-- The node that is reached is not settled, so what was told of settled nodes stays. -/
theorem via_reach (h : Reckons ch s r) (drawn : ch.Complete g) (hm : ch.nodeSlots[m]? = some i)
    (waits : m ∈ s.unsettled) (tells : Tells ch s new.back (some p))
    (hn : ch.nodeSlots[n]? = some j) :
    ∃ v, (r.reach i new.cost p).via[j]? = some v ∧ ∀ l, (s.labels.insert m new)[n]? = some l →
      Tells ch { s with labels := s.labels.insert m new } l.back v := by
  have still (u : NodeId) (k : Label) (settled : u ∉ s.unsettled) (hk : s.labels[u]? = some k) :
      u ∉ s.unsettled ∧ (s.labels.insert m new)[u]? = some k := by
    refine ⟨settled, ?_⟩
    rw [lookup_insert, if_neg, hk]
    rintro rfl
    exact settled waits
  obtain ⟨before, hbefore, -⟩ := h.via m i hm
  obtain ⟨v, hv, told⟩ := h.via n j hn
  have inside := (Array.getElem?_eq_some_iff.1 hbefore).1
  have set := drawn.getElem?_set hm hn inside (some p)
  simp only [lookup_insert]
  by_cases here : m = n
  · rw [if_pos here] at set
    refine ⟨some p, set, fun l hl => ?_⟩
    rw [if_pos here] at hl
    cases hl
    exact tells.keep still
  · rw [if_neg here, hv] at set
    refine ⟨v, set, fun l hl => ?_⟩
    rw [if_neg here] at hl
    exact (told l hl).keep still

theorem reach (h : Reckons ch s r) (drawn : ch.Complete g) (hm : ch.nodeSlots[m]? = some i)
    (waits : m ∈ s.unsettled) (cheaper : new.cost < Search.costTo s.labels m)
    (tells : Tells ch s new.back (some p)) :
    Reckons ch { s with labels := s.labels.insert m new } (r.reach i new.cost p) := by
  have below {k : Label} (hk : s.labels[m]? = some k) : new.cost < k.cost := by
    rwa [Search.costTo_of_some hk] at cheaper
  have here : (s.labels.insert m new)[m]? = some new := by rw [lookup_insert, if_pos rfl]
  have elsewhere {q : NodeId} (apart : m ≠ q) :
      (s.labels.insert m new)[q]? = s.labels[q]? := by rw [lookup_insert, if_neg apart]
  refine ⟨fun q j hq => h.costs_reach drawn hm hq,
    fun q j hq => h.via_reach drawn hm waits tells hq, ?entered, ?labelled, ?nodup⟩
  case entered =>
    intro q j l hq hl wait
    show _ ∈ ⟨new.cost, i⟩ :: r.heap.entries
    by_cases same : m = q
    · subst same
      rw [hm] at hq
      cases hq
      cases here.symm.trans hl
      exact List.mem_cons_self
    · exact List.mem_cons_of_mem _ (h.entered q j l hq ((elsewhere same).symm.trans hl) wait)
  case labelled =>
    intro x hx
    rcases List.mem_cons.1 hx with rfl | hx
    · exact ⟨m, new, hm, here, Nat.le_refl _, fun settled => absurd waits settled⟩
    · obtain ⟨q, l, hq, hl, le, late⟩ := h.labelled x hx
      by_cases same : m = q
      · subst same
        exact ⟨m, new, hq, here, Nat.le_of_lt (Nat.lt_of_lt_of_le (below hl) le),
          fun settled => absurd waits settled⟩
      · exact ⟨q, l, hq, (elsewhere same).trans hl, le, late⟩
  case nodup =>
    refine List.nodup_cons.2 ⟨fun already => ?_, h.nodup⟩
    obtain ⟨q, l, hq, hl, le, -⟩ := h.labelled _ already
    obtain rfl := drawn.slot_injective hm hq
    exact absurd le (Nat.not_le.2 (below hl))

end Reckons

/-- What holds while a node spreads with its label over its edges. -/
structure Spreads (g : Network) (ch : Chart) (n : NodeId) (l : Label) (s : Search) (r : Reckoning) :
    Prop where
  reckons : Reckons ch s r
  word : l.cost ≤ maxWord
  label : s.labels[n]? = some l
  settled : n ∉ s.unsettled
  /-- Settled nodes cost no more. -/
  low (m : NodeId) : m ∈ g.nodeMap → m ∉ s.unsettled →
    ∃ k, s.labels[m]? = some k ∧ k.cost ≤ l.cost

namespace Spreads

variable {g : Network} {ch : Chart} {o : RouteOptions} {goal m n : NodeId} {e : Edge}
  {s : Search} {r : Reckoning} {l : Label} {i edge : Nat}

theorem relax (h : Spreads g ch n l s r) (drawn : ch.Complete g)
    (hn : ch.nodeSlots[n]? = some i) (he : ch.edges[edge]? = some e)
    (exit : o.exit? goal n e = some m) (known : m ∈ g.nodeMap) :
    ∃ r', Reckoning.relax? ch o goal n ⟨l.cost, i⟩ r edge = some r' ∧
      Spreads g ch n l { s with labels := Search.relax o n l s.labels (e, m) } r' := by
  obtain ⟨j, hm⟩ := Network.exists_slot drawn known
  have known_cost := h.reckons.costs m j hm
  simp only [Reckoning.relax?, Search.relax, he, exit, hm, known_cost, Option.bind_eq_bind,
    Option.bind_some]
  by_cases cheaper : addCost l.cost (o.objective.cost e) < Search.costTo s.labels m
  case neg => exact ⟨r, by rw [if_neg cheaper], by rwa [if_neg cheaper]⟩
  have waits : m ∈ s.unsettled := by
    by_contra settled
    obtain ⟨k, hk, le⟩ := h.low m known settled
    have word := h.word
    rw [Search.costTo_of_some hk, addCost] at cheaper
    omega
  have other {q : NodeId} (hq : q ∉ s.unsettled) : m ≠ q := by
    rintro rfl
    exact hq waits
  let new : Label := ⟨addCost l.cost (o.objective.cost e), ⟨e, n⟩ :: l.back⟩
  have less : new.cost < Search.costTo s.labels m := cheaper
  have tells : Tells ch s new.back (some ⟨edge, i⟩) := .passage he hn h.settled h.label
  rw [if_pos cheaper, if_pos cheaper]
  refine ⟨_, rfl, h.reckons.reach drawn hm waits less tells, h.word, ?_, h.settled,
    fun q hq settled => ?_⟩
  · show (s.labels.insert m _)[n]? = some l
    rw [lookup_insert, if_neg (other h.settled), h.label]
  · show ∃ k, (s.labels.insert m _)[q]? = some k ∧ _
    rw [lookup_insert, if_neg (other settled)]
    exact h.low q hq settled

theorem relaxAll (h : Spreads g ch n l s r) (o : RouteOptions) (goal : NodeId)
    (drawn : ch.Complete g)
    (hn : ch.nodeSlots[n]? = some i) {edges : List Nat} {es : List Edge}
    (yields : edges.mapM (fun slot => ch.edges[slot]?) = some es)
    (known : ∀ e ∈ es, e ∈ g.edges) :
    ∃ r', edges.foldlM (Reckoning.relax? ch o goal n ⟨l.cost, i⟩) r = some r' ∧
      Spreads g ch n l { s with labels := (es.filterMap fun e =>
        (o.exit? goal n e).map fun m => (e, m)).foldl (Search.relax o n l) s.labels } r' := by
  induction edges generalizing es s r with
  | nil =>
    cases yields
    exact ⟨r, rfl, h⟩
  | cons edge edges ih =>
    simp only [List.mapM_cons, bind, Option.bind_eq_some_iff, pure, Option.some.injEq] at yields
    obtain ⟨e, he, rest, yields, rfl⟩ := yields
    obtain ⟨hmem, known⟩ := List.forall_mem_cons.1 known
    rw [List.foldlM_cons]
    cases exit : o.exit? goal n e with
    | none =>
      have same : Reckoning.relax? ch o goal n ⟨l.cost, i⟩ r edge = some r := by
        simp [Reckoning.relax?, he, exit]
      rw [same, List.filterMap_cons_none (by rw [exit]; rfl)]
      exact ih h yields known
    | some m =>
      have target := (Network.exit?_eq_some.1 exit).1
      have reached := (Network.known_of_target? hmem target).2.1
      obtain ⟨r₁, relaxed, h₁⟩ := h.relax drawn hn he exit reached
      rw [relaxed, List.filterMap_cons_some (b := (e, m)) (by rw [exit]; rfl)]
      exact ih h₁ yields known

end Spreads

namespace Reckons

variable {g : Network} {ch : Chart} {o : RouteOptions} {goal origin m n : NodeId} {e : Edge}
  {s : Search} {r : Reckoning} {l : Label} {x : Reached} {heap : Heap Reached} {i : Nat}

/-! ### Turns -/

/-- When an entry is handed out, its node has no other entry as cheap. -/
theorem behind (h : Reckons ch s r) (drawn : ch.Complete g)
    (pop : r.heap.pop? = some (x, heap)) (hn : ch.nodeSlots[n]? = some x.slot)
    (hl : s.labels[n]? = some l) (le : l.cost ≤ x.cost) :
    Reckons ch { s with unsettled := s.unsettled.erase n } { r with heap } := by
  have mem (y : Reached) : y ∈ r.heap.entries ↔ y = x ∨ y ∈ heap.entries := by
    rw [← (Heap.perm_of_pop? pop).mem_iff, List.mem_cons]
  obtain ⟨once, nodup⟩ := List.nodup_cons.1 ((Heap.perm_of_pop? pop).nodup_iff.2 h.nodup)
  refine ⟨h.costs, ?via, ?entered, ?labelled, nodup⟩
  case via =>
    intro m j hm
    obtain ⟨v, hv, told⟩ := h.via m j hm
    refine ⟨v, hv, fun k hk => ?_⟩
    refine (told k hk).keep fun u q settled hq => ⟨?_, hq⟩
    exact fun wait => settled (mem_erase_iff.1 wait).2
  case entered =>
    intro m j k hm hk wait
    obtain ⟨apart, wait⟩ := mem_erase_iff.1 wait
    rcases (mem _).1 (h.entered m j k hm hk wait) with rfl | rest
    · exact absurd (drawn.slot_injective hn hm) apart
    · exact rest
  case labelled =>
    intro y hy
    obtain ⟨m, k, hm, hk, le', late⟩ := h.labelled y ((mem y).2 (Or.inr hy))
    refine ⟨m, k, hm, hk, le', fun settled => ?_⟩
    by_cases here : n = m
    · subst here
      rw [hl] at hk
      cases hk
      rw [hn] at hm
      have first := Reached.isLE_iff.1 (Heap.le_of_pop? pop hy)
      have apart : x.cost ≠ y.cost := by
        intro same
        obtain rfl : x = y := by
          cases x
          cases y
          simp_all
        exact once hy
      omega
    · exact late fun wait => settled (mem_erase_iff.2 ⟨here, wait⟩)

theorem next?_eq_none (h : Reckons ch s r) (drawn : ch.Complete g)
    (c : s.Consistent g o goal origin) (empty : r.heap.pop? = none) : s.next? = none := by
  refine Search.next?_eq_none_iff.2 fun m k hk wait => ?_
  obtain ⟨j, hm⟩ := Network.exists_slot drawn (c.known m k hk)
  have there := h.entered m j k hm hk wait
  rw [Heap.pop?_eq_none_iff.1 empty] at there
  cases there

theorem behind_late (h : Reckons ch s r) (drawn : ch.Complete g)
    (pop : r.heap.pop? = some (x, heap)) (hn : ch.nodeSlots[n]? = some x.slot)
    (hl : s.labels[n]? = some l) (le : l.cost ≤ x.cost) (settled : n ∉ s.unsettled) :
    Reckons ch s { r with heap } := by
  have still : s.unsettled.erase n = s.unsettled := by
    refine Std.ExtTreeSet.ext_mem fun m => ?_
    rw [mem_erase_iff, and_iff_right_iff_imp]
    rintro wait rfl
    exact settled wait
  have behind := h.behind drawn pop hn hl le
  rwa [still] at behind

/-- An entry of a node that waits is handed out when the node has its turn. -/
theorem next?_of_pop? (h : Reckons ch s r) (drawn : ch.Complete g)
    (c : s.Consistent g o goal origin) (pop : r.heap.pop? = some (x, heap))
    (hn : ch.nodeSlots[n]? = some x.slot) (hl : s.labels[n]? = some l) (le : l.cost ≤ x.cost)
    (wait : n ∈ s.unsettled) :
    s.next? = some (n, l) ∧ x.cost = l.cost := by
  have first {m : NodeId} {j : Nat} {k : Label} (hm : ch.nodeSlots[m]? = some j)
      (hk : s.labels[m]? = some k) (hw : m ∈ s.unsettled) :
      x.cost < k.cost ∨ (x.cost = k.cost ∧ x.slot ≤ j) := by
    have there := h.entered m j k hm hk hw
    rw [← (Heap.perm_of_pop? pop).mem_iff] at there
    rcases List.mem_cons.1 there with rfl | rest
    · exact Or.inr ⟨rfl, Nat.le_refl _⟩
    · exact Reached.isLE_iff.1 (Heap.le_of_pop? pop rest)
  have same : x.cost = l.cost := by
    have := first hn hl wait
    omega
  refine ⟨?_, same⟩
  cases next : s.next? with
  | none => exact absurd wait (Search.next?_eq_none_iff.1 next n l hl)
  | some found =>
    obtain ⟨m, k⟩ := found
    obtain ⟨waits, hk⟩ := Search.next?_mem next
    obtain ⟨j, hm⟩ := Network.exists_slot drawn (c.known m k hk)
    have turn : (⟨l.cost, n⟩ : Turn) ≤ ⟨k.cost, m⟩ := by
      rcases first hm hk waits with lt | ⟨eq, le⟩
      · exact Or.inl (same ▸ lt)
      · exact Or.inr ⟨same ▸ eq, drawn.le_of_slot_le hn hm le⟩
    obtain rfl : m = n := Turn.le_antisymm (Search.next?_first next wait hl) turn
    rw [hl] at hk
    cases hk
    rfl

/-- **A turn keeps what is known in step.** -/
theorem settle (h : Reckons ch s r) (drawn : ch.Complete g)
    (c : s.Consistent g o goal origin) (pop : r.heap.pop? = some (x, heap))
    (hn : ch.nodeSlots[n]? = some x.slot) (next : s.next? = some (n, l)) (same : x.cost = l.cost) :
    ∃ r', Reckoning.settle? ch o goal { r with heap } x = some r' ∧
      Reckons ch (s.settle g o goal n l) r' := by
  obtain ⟨wait, hl⟩ := Search.next?_mem next
  obtain ⟨a, ha, rfl⟩ := (drawn.nodeSlots n x.slot).1 hn
  obtain ⟨edges, listed, yields⟩ := drawn.incident x.slot a ha
  have spreads : Spreads g ch a.id l { s with unsettled := s.unsettled.erase a.id }
      { r with heap } := by
    refine ⟨h.behind drawn pop hn hl (Nat.le_of_eq same.symm),
      Nat.le_of_lt (c.ways a.id l hl).2.2, hl, fun still => (mem_erase_iff.1 still).1 rfl,
      fun m hm settled => ?_⟩
    by_cases here : a.id = m
    · subst here
      exact ⟨l, hl, Nat.le_refl _⟩
    · have before : m ∉ s.unsettled := fun wait => settled (mem_erase_iff.2 ⟨here, wait⟩)
      obtain ⟨k, hk⟩ := c.settled m hm before
      exact ⟨k, hk, c.sorted m k hk before a.id l hl wait⟩
  obtain ⟨r', relaxed, done⟩ :=
    spreads.relaxAll o goal drawn hn yields fun e he => (List.mem_filter.1 he).1
  refine ⟨r', ?_, done.reckons⟩
  have entry : x = ⟨l.cost, x.slot⟩ := by rw [← same]
  have stands : ch.nodes[x.slot]? = some a := by rw [drawn.nodes, List.getElem?_toArray, ha]
  simp only [Reckoning.settle?, stands, listed, Option.bind_eq_bind, Option.bind_some]
  rw [entry]
  exact relaxed

/-! ### The end -/

/-- **A way that is followed back is that of the label.** -/
theorem retrace?_eq (h : Reckons ch s r) (drawn : ch.Complete g)
    (hn : ch.nodeSlots[n]? = some i) (hl : s.labels[n]? = some l) {bound : Nat}
    (short : l.back.length < bound) (route : Route) :
    Reckoning.retrace? ch r bound i route = some
      { nodes := (l.back.map Hop.origin).reverse ++ route.nodes
        edges := (l.back.map fun h => h.edge.ends).reverse ++ route.edges
        totalLength := route.totalLength + total (fun h => h.edge.length) l.back
        cost := route.cost } := by
  obtain ⟨v, hv, told⟩ := h.via n i hn
  have tells := told l hl
  generalize back : l.back = hops at tells short ⊢
  induction hops generalizing n i l v bound route with
  | nil =>
    obtain ⟨bound, rfl⟩ := Nat.exists_eq_succ_of_ne_zero (Nat.ne_of_gt short)
    cases tells
    rw [Reckoning.retrace?, hv]
    rfl
  | cons hop rest ih =>
    obtain ⟨bound, rfl⟩ := Nat.exists_eq_succ_of_ne_zero (Nat.ne_zero_of_lt short)
    cases tells with
    | @passage e u k p he hu settled hk =>
      obtain ⟨a, ha, rfl⟩ := drawn.exists_node hu
      obtain ⟨v', hv', told'⟩ := h.via _ _ hu
      rw [Reckoning.retrace?, hv]
      simp only [Option.bind_eq_bind, Option.bind_some, he, ha]
      rw [ih hu hk _ _ hv' told' rfl (told' k hk) (Nat.lt_of_succ_lt_succ short)]
      simp [total, Nat.add_assoc]

/-- The way to a known node has fewer hops than there are nodes. -/
theorem length_back_lt (drawn : ch.Complete g) (simple : s.Simple)
    (c : s.Consistent g o goal origin) (hl : s.labels[n]? = some l) :
    l.back.length < ch.nodes.size := by
  have known : Network.visits n l.back ⊆ g.nodeMap.keys := by
    intro m hm
    rw [Std.ExtTreeMap.mem_keys]
    rcases List.mem_cons.1 hm with rfl | hm
    · exact c.known m l hl
    · exact (c.ways n l hl).1.known m hm
  have few := (simple n l hl).1.length_le_of_subset known
  have nodes : ch.nodes.size = g.nodeMap.keys.length := by
    rw [drawn.nodes, List.size_toArray, Network.nodes, List.length_map,
      Std.ExtTreeMap.length_toList, Std.ExtTreeMap.length_keys]
  rw [Network.visits, List.length_cons, List.length_map] at few
  omega

/-- **Both searches find the same route.** -/
theorem run?_eq {s : Search} {r : Reckoning} (h : Reckons ch s r)
    (drawn : ch.Complete g) (c : s.Consistent g o goal origin)
    (simple : s.Simple) (hg : ch.nodeSlots[goal]? = some i) :
    Reckoning.run? ch o goal i r = some ((Search.run g o goal s).map (Label.route goal)) := by
  cases pop : r.heap.pop? with
  | none =>
    rw [Reckoning.run?_of_empty pop, Search.run_of_none (h.next?_eq_none drawn c pop)]
    rfl
  | some found =>
    obtain ⟨x, heap⟩ := found
    have there : x ∈ r.heap.entries := (Heap.perm_of_pop? pop).mem_iff.1 List.mem_cons_self
    obtain ⟨n, l, hn, hl, le, late⟩ := h.labelled x there
    have cost : r.costs[x.slot]? = some l.cost := by
      rw [h.costs n x.slot hn, Search.costTo_of_some hl]
    have less := Reckoning.work_behind pop
    by_cases wait : n ∈ s.unsettled
    case neg =>
      have apart : x.slot ≠ i := by
        rintro rfl
        exact wait (drawn.slot_injective hn hg ▸ c.waits)
      rw [Reckoning.run?_of_late pop apart cost (late wait)]
      exact run?_eq (h.behind_late drawn pop hn hl le wait) drawn c simple hg
    obtain ⟨next, same⟩ := h.next?_of_pop? drawn c pop hn hl le wait
    rw [Search.run_of_some next]
    by_cases here : n = goal
    · subst here
      rw [hn] at hg
      cases hg
      obtain ⟨a, ha, rfl⟩ := drawn.exists_node hn
      rw [Reckoning.run?_of_goal pop rfl, if_pos rfl]
      simp only [ha, Option.bind_eq_bind, Option.bind_some]
      rw [h.retrace?_eq drawn hn hl (length_back_lt drawn simple c hl)]
      simp [Label.route, same]
    · have apart : x.slot ≠ i := by
        rintro rfl
        exact here (drawn.slot_injective hn hg)
      obtain ⟨r', settled, h'⟩ := h.settle drawn c pop hn next same
      have lower := Reckoning.work_settle? settled
      rw [Reckoning.run?_of_turn pop apart cost (Nat.le_of_eq same) settled, if_neg here]
      exact run?_eq h' drawn (c.settle next here) (simple.settle c next) hg
termination_by r.work

end Reckons

/-! ## Answers -/

namespace Network

variable {g : Network} {ch : Chart}

theorem shortestRoute?_of_drawn (drawn : ch.Complete g)
    (o : RouteOptions) (origin goal : NodeId) :
    ch.shortestRoute? o origin goal = some (g.shortestRoute o origin goal) := by
  unfold Chart.shortestRoute?
  by_cases known : origin ∈ g.nodeMap ∧ goal ∈ g.nodeMap
  · obtain ⟨i, hi⟩ := exists_slot drawn known.1
    obtain ⟨j, hj⟩ := exists_slot drawn known.2
    simp only [hi, hj]
    by_cases here : origin = goal
    · subst here
      rw [hi] at hj
      cases hj
      rw [if_pos rfl, shortestRoute_self o known.1]
    · have apart : i ≠ j := by
        rintro rfl
        exact here (drawn.slot_injective hi hj)
      rw [if_neg apart, shortestRoute_of_ne known.1 known.2 here]
      exact (Reckons.start drawn hi).run?_eq drawn (Search.consistent_start known.1 known.2)
        (Search.simple_start g origin) hj
  · rw [shortestRoute_unknown o known]
    split
    · rename_i i j hi hj
      exact absurd ⟨drawn.known_of_slot hi, drawn.known_of_slot hj⟩ known
    · rfl

/-- **A chart answers route queries as its network does.**  The search on it ends, and no slot is
missing on the way. -/
theorem chart_routes (g : Network) : ∃ ch, g.chart? = some ch ∧ ch.Shows g ∧
    ∀ o origin goal, ch.shortestRoute? o origin goal = some (g.shortestRoute o origin goal) := by
  obtain ⟨ch, chart, drawn⟩ := g.exists_drawn
  exact ⟨ch, chart, shows_of_drawn drawn, shortestRoute?_of_drawn drawn⟩

end Network

end Signalbox
