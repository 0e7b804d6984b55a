import Signalbox.Network.Chart
import Signalbox.Proofs.Lookup

/-!
# Charts show their networks

A chart is drawn from the nodes and edges of a network in their order, and every slot that is looked
up on the way exists, since the edges of a network join its own nodes.  Read through its slots, the
chart answers as the network does.

* `Chart.Drawn`         : what a chart holds while its edges are entered;
* `Chart.Drawn.enter`   : every edge can be entered, and then the chart holds it as well;
* `Network.chart_shows` : every network has a chart, which answers for it.
-/

set_option autoImplicit false

namespace Signalbox

namespace Network

theorem sorted_nodes (g : Network) : g.nodes.Pairwise fun m n => m.id < n.id := by
  rw [nodes, List.pairwise_map]
  refine Std.ExtTreeMap.ordered_keys_toList.imp_of_mem fun {p q} hp hq lt => ?_
  rw [g.node_id p.1 p.2 (Std.ExtTreeMap.mem_toList_iff_getElem?_eq_some.1 hp),
    g.node_id q.1 q.2 (Std.ExtTreeMap.mem_toList_iff_getElem?_eq_some.1 hq)]
  exact Ident.compare_eq_lt.1 lt

theorem nodup_ids (g : Network) : (g.nodes.map Node.id).Nodup := by
  rw [List.nodup_iff_pairwise_ne, List.pairwise_map]
  apply g.sorted_nodes.imp
  intro m n lt same
  rw [← Ident.compare_eq_lt, same, Std.compare_self] at lt
  cases lt

theorem sorted_edges (g : Network) :
    g.edges.Pairwise fun d e => compare d.ends e.ends = .lt := by
  rw [edges, List.pairwise_map]
  refine Std.ExtTreeMap.ordered_keys_toList.imp_of_mem fun {p q} hp hq lt => ?_
  rw [g.edge_ends p.1 p.2 (Std.ExtTreeMap.mem_toList_iff_getElem?_eq_some.1 hp),
    g.edge_ends q.1 q.2 (Std.ExtTreeMap.mem_toList_iff_getElem?_eq_some.1 hq)]
  exact lt

end Network

namespace Chart

/-- A chart shows a network: it holds the same nodes and edges, and answers alike. -/
structure Shows (ch : Chart) (g : Network) : Prop where
  nodes : ch.nodes.toList = g.nodes
  edges : ch.edges.toList = g.edges
  node (i : NodeId) : ch.node? i = some (g.node? i)
  edgeWith (k : Ends) : ch.edgeWith? k = some (g.edgeWith? k)
  edgesOf (i : NodeId) : ch.edgesOf? i = some (g.edgesOf i)

variable {ch : Chart} {ns : List Node} {done : List (Ends × Edge)} {i : NodeId} {key : Ends}
  {e : Edge} {n : Node} {k slot : Nat}

/-! ## Slots -/

/-- Whatever slots yield, they yield when more slots are filled. -/
theorem mapM_mono {f g : Nat → Option Edge} (more : ∀ s e, f s = some e → g s = some e)
    {slots : List Nat} {es : List Edge} (h : slots.mapM f = some es) : slots.mapM g = some es := by
  induction slots generalizing es with
  | nil => exact h
  | cons s slots ih =>
    simp only [List.mapM_cons, bind, Option.bind_eq_some_iff, pure, Option.some.injEq] at h ⊢
    obtain ⟨d, hd, ds, hds, rfl⟩ := h
    exact ⟨d, more s d hd, ds, ih hds, rfl⟩

theorem getElem?_nodeSlots (ids : (ns.map Node.id).Nodup) :
    (ofNodes ns).nodeSlots[i]? = some k ↔ ∃ n, ns[k]? = some n ∧ n.id = i := by
  have distinct : (ns.zipIdx.map fun p => (p.1.id, p.2)).Pairwise
      fun a b => ¬ compare a.1 b.1 = .eq := by
    have names : (ns.zipIdx.map fun p => (p.1.id, p.2)).map Prod.fst = ns.map Node.id := by
      rw [List.map_map]
      calc ns.zipIdx.map (Node.id ∘ Prod.fst) = (ns.zipIdx.map Prod.fst).map Node.id := by
            rw [List.map_map]
        _ = ns.map Node.id := by rw [List.zipIdx_map_fst]
    rw [← names, List.nodup_iff_pairwise_ne, List.pairwise_map] at ids
    exact ids.imp fun apart same => apart (Std.LawfulEqOrd.eq_of_compare same)
  have listed : (i, k) ∈ (ns.zipIdx.map fun p => (p.1.id, p.2)) ↔
      ∃ n, ns[k]? = some n ∧ n.id = i := by
    simp only [List.mem_map, Prod.exists, List.mem_zipIdx_iff_getElem?, Prod.mk.injEq]
    constructor
    · rintro ⟨n, l, hn, rfl, rfl⟩
      exact ⟨n, hn, rfl⟩
    · rintro ⟨n, hn, rfl⟩
      exact ⟨n, k, hn, rfl, rfl⟩
  rw [← listed]
  constructor
  · intro h
    have mem : i ∈ (ofNodes ns).nodeSlots := mem_iff_lookup.2 ⟨k, h⟩
    rw [ofNodes, Std.ExtTreeMap.mem_ofList, List.contains_iff_mem, List.mem_map] at mem
    obtain ⟨⟨j, l⟩, hl, rfl⟩ := mem
    have found : (ofNodes ns).nodeSlots[j]? = some l :=
      Std.ExtTreeMap.getElem?_ofList_of_mem Std.ReflOrd.compare_self distinct hl
    rw [found] at h
    cases h
    exact hl
  · exact Std.ExtTreeMap.getElem?_ofList_of_mem Std.ReflOrd.compare_self distinct

/-! ## Drawing -/

/-- What a chart of some nodes holds when the edges of `done` are entered. -/
structure Drawn (ns : List Node) (done : List (Ends × Edge)) (ch : Chart) : Prop where
  nodes : ch.nodes = ns.toArray
  nodeSlots (i : NodeId) (k : Nat) :
    ch.nodeSlots[i]? = some k ↔ ∃ n, ns[k]? = some n ∧ n.id = i
  edges : ch.edges.toList = done.map Prod.snd
  edgeSlots (key : Ends) (slot : Nat) :
    ch.edgeSlots[key]? = some slot ↔ ∃ e, done[slot]? = some (key, e)
  /-- The slots listed at a node are those of its edges, in their order. -/
  incident (k : Nat) (n : Node) : ns[k]? = some n → ∃ slots, ch.incident[k]? = some slots ∧
    slots.mapM (fun slot => ch.edges[slot]?) =
      some ((done.map Prod.snd).filter fun e => e.touches n.id)

/-- Every edge of a network is entered on the chart of its nodes. -/
abbrev Complete (g : Network) (ch : Chart) : Prop := Drawn g.nodes g.edgeMap.toList ch

theorem drawn_ofNodes (ids : (ns.map Node.id).Nodup) : Drawn ns [] (ofNodes ns) := by
  refine ⟨rfl, fun i k => getElem?_nodeSlots ids, rfl, ?_, ?_⟩
  · intro key slot
    simp [ofNodes]
  · intro k n hn
    have inside : k < ns.length := (List.getElem?_eq_some_iff.1 hn).1
    exact ⟨[], by simp [ofNodes, inside], rfl⟩

theorem attach?_eq {slots : List Nat} (known : ch.nodeSlots[i]? = some k)
    (listed : ch.incident[k]? = some slots) (slot : Nat) :
    ch.attach? i slot =
      some { ch with incident := ch.incident.setIfInBounds k (slots ++ [slot]) } := by
  simp [attach?, known, listed]

theorem enter?_eq {a b : Nat} {atA atB : List Nat} (source : ch.nodeSlots[e.source]? = some a)
    (target : ch.nodeSlots[e.target]? = some b) (apart : a ≠ b)
    (listedA : ch.incident[a]? = some atA) (listedB : ch.incident[b]? = some atB) (key : Ends) :
    ch.enter? (key, e) = some { ch with
      incident := (ch.incident.setIfInBounds a (atA ++ [ch.edges.size])).setIfInBounds b
        (atB ++ [ch.edges.size])
      edges := ch.edges.push e
      edgeSlots := ch.edgeSlots.insert key ch.edges.size } := by
  let first := { ch with incident := ch.incident.setIfInBounds a (atA ++ [ch.edges.size]) }
  have known : first.nodeSlots[e.target]? = some b := target
  have listed : first.incident[b]? = some atB := by
    show (ch.incident.setIfInBounds a (atA ++ [ch.edges.size]))[b]? = some atB
    rw [Array.getElem?_setIfInBounds_ne apart, listedB]
  have attached := attach?_eq known listed ch.edges.size
  simp only [enter?, attach?_eq source listedA, Option.bind_eq_bind, Option.bind_some]
  rw [attached]
  rfl

/-- The slot of a name that is on the chart belongs to its node. -/
theorem Drawn.slot_eq_iff {l m : Nat} (h : Drawn ns done ch) (hn : ns[l]? = some n)
    (hm : ch.nodeSlots[i]? = some m) : m = l ↔ i = n.id := by
  constructor
  · rintro rfl
    obtain ⟨n', hn', rfl⟩ := (h.nodeSlots i m).1 hm
    rw [hn] at hn'
    cases hn'
    rfl
  · rintro rfl
    rw [(h.nodeSlots n.id l).2 ⟨n, hn, rfl⟩] at hm
    cases hm
    rfl

/-- A new slot is listed at the two ends of its edge, and nowhere else. -/
theorem Drawn.listed {a b l : Nat} {atA atB slots : List Nat} (h : Drawn ns done ch)
    (source : ch.nodeSlots[e.source]? = some a) (target : ch.nodeSlots[e.target]? = some b)
    (listedA : ch.incident[a]? = some atA) (listedB : ch.incident[b]? = some atB)
    (hn : ns[l]? = some n) (hl : ch.incident[l]? = some slots) (slot : Nat) :
    ((ch.incident.setIfInBounds a (atA ++ [slot])).setIfInBounds b (atB ++ [slot]))[l]? =
      some (slots ++ if e.touches n.id then [slot] else []) := by
  have touches : e.touches n.id = true ↔ a = l ∨ b = l := by
    rw [h.slot_eq_iff hn source, h.slot_eq_iff hn target, Edge.touches, Bool.or_eq_true,
      decide_eq_true_eq, decide_eq_true_eq]
  have inside : l < ch.incident.size := (Array.getElem?_eq_some_iff.1 hl).1
  by_cases hb : b = l
  · subst hb
    rw [if_pos (touches.2 (Or.inr rfl)), Array.getElem?_setIfInBounds_self_of_lt (by simpa)]
    rw [listedB] at hl
    cases hl
    rfl
  · rw [Array.getElem?_setIfInBounds_ne hb]
    by_cases ha : a = l
    · subst ha
      rw [if_pos (touches.2 (Or.inl rfl)), Array.getElem?_setIfInBounds_self_of_lt inside]
      rw [listedA] at hl
      cases hl
      rfl
    · have neither : ¬ e.touches n.id = true := fun ht => (touches.1 ht).elim ha hb
      rw [if_neg neither, List.append_nil, Array.getElem?_setIfInBounds_ne ha, hl]

/-- **Every edge can be entered** that joins two different nodes on the chart. -/
theorem Drawn.enter (h : Drawn ns done ch) (apart : e.source ≠ e.target)
    (source : ∃ n ∈ ns, n.id = e.source) (target : ∃ n ∈ ns, n.id = e.target)
    (fresh : ∀ p ∈ done, p.1 ≠ key) :
    ∃ ch', ch.enter? (key, e) = some ch' ∧ Drawn ns (done ++ [(key, e)]) ch' := by
  obtain ⟨x, hx, hxs⟩ := source
  obtain ⟨y, hy, hyt⟩ := target
  obtain ⟨a, ha⟩ := List.getElem?_of_mem hx
  obtain ⟨b, hb⟩ := List.getElem?_of_mem hy
  have slotX : ch.nodeSlots[e.source]? = some a := (h.nodeSlots _ _).2 ⟨x, ha, hxs⟩
  have slotY : ch.nodeSlots[e.target]? = some b := (h.nodeSlots _ _).2 ⟨y, hb, hyt⟩
  obtain ⟨atX, listedX, -⟩ := h.incident a x ha
  obtain ⟨atY, listedY, -⟩ := h.incident b y hb
  have hab : a ≠ b := by
    rw [ne_eq, h.slot_eq_iff hb slotX, hyt]
    exact apart
  have size : ch.edges.size = done.length := by
    rw [← Array.length_toList, h.edges, List.length_map]
  refine ⟨_, enter?_eq slotX slotY hab listedX listedY key, h.nodes, h.nodeSlots, ?edges,
    ?edgeSlots, ?incident⟩
  case edges => simp [h.edges]
  case edgeSlots =>
    intro key' slot
    simp only [lookup_insert, size, getElem?_concat_eq_some, exists_or]
    by_cases hk : key = key'
    · subst hk
      have new (d : Edge) : done[slot]? ≠ some (key, d) :=
        fun hd => fresh _ (List.mem_of_getElem? hd) rfl
      simp only [if_true, Option.some.injEq, new, exists_false, false_or, Prod.mk.injEq, true_and,
        exists_and_left, exists_eq, and_true]
      exact eq_comm
    · simp [hk, Ne.symm hk, h.edgeSlots]
  case incident =>
    intro l n hn
    obtain ⟨slots, hl, yields⟩ := h.incident l n hn
    refine ⟨_, h.listed slotX slotY listedX listedY hn hl ch.edges.size, ?_⟩
    have before : slots.mapM (fun slot => (ch.edges.push e)[slot]?) =
        some ((done.map Prod.snd).filter fun e => e.touches n.id) := by
      refine mapM_mono (fun s d hd => ?_) yields
      have inside := (Array.getElem?_eq_some_iff.1 hd).1
      rw [Array.getElem?_push, if_neg (Nat.ne_of_lt inside), hd]
    simp only
    rw [List.mapM_append, before, List.map_append, List.filter_append]
    cases ht : e.touches n.id <;> simp [ht]

/-- Edges of different ends between nodes on the chart can be entered one after the other. -/
theorem Drawn.enterAll {later : List (Ends × Edge)} (h : Drawn ns done ch)
    (joins : ∀ p ∈ later, p.2.source ≠ p.2.target ∧ (∃ n ∈ ns, n.id = p.2.source) ∧
      ∃ n ∈ ns, n.id = p.2.target)
    (keys : ((done ++ later).map Prod.fst).Nodup) :
    ∃ ch', later.foldlM enter? ch = some ch' ∧ Drawn ns (done ++ later) ch' := by
  induction later generalizing done ch with
  | nil => exact ⟨ch, rfl, by simpa using h⟩
  | cons p later ih =>
    obtain ⟨key, e⟩ := p
    obtain ⟨apart, source, target⟩ := joins _ (List.mem_cons_self ..)
    have fresh : ∀ p ∈ done, p.1 ≠ key := by
      intro p hp same
      rw [List.map_append, List.nodup_append] at keys
      exact keys.2.2 p.1 (List.mem_map_of_mem hp) key (by simp) same
    obtain ⟨ch₁, entered, drawn⟩ := h.enter apart source target fresh
    have split : done ++ (key, e) :: later = done ++ [(key, e)] ++ later := by simp
    rw [split] at keys ⊢
    obtain ⟨ch₂, rest, drawn⟩ := ih drawn (fun p hp => joins p (List.mem_cons_of_mem _ hp)) keys
    exact ⟨ch₂, by rw [List.foldlM_cons, entered]; exact rest, drawn⟩

end Chart

/-! ## Reading -/

namespace Network

open Chart

variable {g : Network} {ch : Chart} {i : NodeId}

theorem mem_edgeMap_toList {p : Ends × Edge} (hp : p ∈ g.edgeMap.toList) :
    g.edgeMap[p.1]? = some p.2 := Std.ExtTreeMap.mem_toList_iff_getElem?_eq_some.1 hp

theorem exists_mem_nodes {i : NodeId} (h : i ∈ g.nodeMap) : ∃ n ∈ g.nodes, n.id = i := by
  obtain ⟨n, hn⟩ := mem_iff_lookup.1 h
  have hi := g.node_id i n hn
  exact ⟨n, mem_nodes.2 (by rw [hi, hn]), hi⟩

theorem nodup_keys_edgeMap (g : Network) : (g.edgeMap.toList.map Prod.fst).Nodup := by
  rw [List.nodup_iff_pairwise_ne, List.pairwise_map]
  apply Std.ExtTreeMap.ordered_keys_toList.imp
  intro p q lt he
  rw [he, Std.compare_self] at lt
  cases lt

theorem exists_slot (h : ch.Complete g) (known : i ∈ g.nodeMap) :
    ∃ k, ch.nodeSlots[i]? = some k := by
  obtain ⟨n, hn, hi⟩ := exists_mem_nodes known
  obtain ⟨k, hk⟩ := List.getElem?_of_mem hn
  exact ⟨k, (h.nodeSlots i k).2 ⟨n, hk, hi⟩⟩

theorem not_mem_of_no_slot (h : ch.Complete g) (hs : ch.nodeSlots[i]? = none) :
    i ∉ g.nodeMap := fun known => by
  obtain ⟨k, hk⟩ := exists_slot h known
  rw [hk] at hs
  cases hs

theorem node?_of_drawn (h : ch.Complete g) (i : NodeId) :
    ch.node? i = some (g.node? i) := by
  cases hs : ch.nodeSlots[i]? with
  | none =>
    have unknown : g.nodeMap[i]? = none :=
      Std.ExtTreeMap.getElem?_eq_none (not_mem_of_no_slot h hs)
    simp [Chart.node?, hs, Network.node?, unknown]
  | some k =>
    obtain ⟨n, hn, rfl⟩ := (h.nodeSlots i k).1 hs
    have known := mem_nodes.1 (List.mem_of_getElem? hn)
    simp [Chart.node?, hs, h.nodes, hn, Network.node?, known]

theorem edgeWith?_of_drawn (h : ch.Complete g) (k : Ends) :
    ch.edgeWith? k = some (g.edgeWith? k) := by
  cases hs : ch.edgeSlots[k]? with
  | none =>
    have unknown : g.edgeMap[k]? = none := by
      cases he : g.edgeMap[k]? with
      | none => rfl
      | some e =>
        obtain ⟨slot, hslot⟩ := List.getElem?_of_mem
          (Std.ExtTreeMap.mem_toList_iff_getElem?_eq_some.2 he)
        rw [(h.edgeSlots k slot).2 ⟨e, hslot⟩] at hs
        cases hs
    simp [Chart.edgeWith?, hs, Network.edgeWith?, unknown]
  | some slot =>
    obtain ⟨e, he⟩ := (h.edgeSlots k slot).1 hs
    have known := mem_edgeMap_toList (List.mem_of_getElem? he)
    have stands : ch.edges[slot]? = some e := by
      rw [← Array.getElem?_toList, h.edges, List.getElem?_map, he]
      rfl
    simp only at known
    simp [Chart.edgeWith?, hs, stands, Network.edgeWith?, known]

theorem edgesOf_eq_nil (unknown : i ∉ g.nodeMap) : g.edgesOf i = [] := by
  refine List.eq_nil_iff_forall_not_mem.2 fun e he => unknown ?_
  obtain ⟨hmem, touches⟩ := mem_edgesOf.1 he
  obtain ⟨-, source, target⟩ := g.edge_known _ e (mem_edges.1 hmem)
  simp only [Edge.touches, Bool.or_eq_true, decide_eq_true_eq] at touches
  rcases touches with rfl | rfl
  · exact source
  · exact target

theorem edgesOf?_of_drawn (h : ch.Complete g) (i : NodeId) :
    ch.edgesOf? i = some (g.edgesOf i) := by
  cases hs : ch.nodeSlots[i]? with
  | none => simp [Chart.edgesOf?, hs, edgesOf_eq_nil (not_mem_of_no_slot h hs)]
  | some k =>
    obtain ⟨n, hn, rfl⟩ := (h.nodeSlots i k).1 hs
    obtain ⟨slots, listed, yields⟩ := h.incident k n hn
    simp only [Chart.edgesOf?, hs, listed, Option.bind_some, yields]
    rfl

/-- A chart with all edges of a network on it shows the network. -/
theorem shows_of_drawn (h : ch.Complete g) : ch.Shows g where
  nodes := by rw [h.nodes]
  edges := h.edges
  node := node?_of_drawn h
  edgeWith := edgeWith?_of_drawn h
  edgesOf := edgesOf?_of_drawn h

theorem exists_drawn (g : Network) : ∃ ch, g.chart? = some ch ∧ ch.Complete g := by
  have joins : ∀ p ∈ g.edgeMap.toList, p.2.source ≠ p.2.target ∧
      (∃ n ∈ g.nodes, n.id = p.2.source) ∧ ∃ n ∈ g.nodes, n.id = p.2.target := by
    intro p hp
    obtain ⟨apart, source, target⟩ := g.edge_known _ _ (mem_edgeMap_toList hp)
    exact ⟨apart, exists_mem_nodes source, exists_mem_nodes target⟩
  exact (drawn_ofNodes g.nodup_ids).enterAll joins g.nodup_keys_edgeMap

/-- **Every network has a chart, which answers for it.**  No slot is missing when the chart is drawn
or read. -/
theorem chart_shows (g : Network) : ∃ ch, g.chart? = some ch ∧ ch.Shows g := by
  obtain ⟨ch, drawn, holds⟩ := g.exists_drawn
  exact ⟨ch, drawn, shows_of_drawn holds⟩

end Network

end Signalbox
