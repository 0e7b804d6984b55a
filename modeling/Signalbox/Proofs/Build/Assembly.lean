import Signalbox.Build.Assembly
import Signalbox.Proofs.Lookup

/-!
# Assembled networks

Links between different known nodes, no two with the same ends, assemble without refusal.  The
network has the nodes it is made of, and its edges are those links.

* `Network.getElem?_ofNodes` : the nodes of a network made of nodes;
* `Network.assemble_ok`      : the network that nodes and their links assemble.
-/

set_option autoImplicit false

namespace Signalbox

/-- The ends of a link. -/
def Link.ends (l : Link) : Ends := ⟨l.a, l.b⟩

/-- Links that an assembly cannot refuse: they join different nodes out of some, in ascending order,
and no two of them the same nodes. -/
structure Link.Sound (ids : List NodeId) (links : List Link) : Prop where
  ascending : ∀ l ∈ links, l.a ≤ l.b ∧ l.a ≠ l.b
  known : ∀ l ∈ links, l.a ∈ ids ∧ l.b ∈ ids
  distinct : links.Pairwise fun l k => l.ends ≠ k.ends

namespace Network

variable {g : Network} {i : NodeId} {n : Node} {k : Ends} {e : Edge}

/-! ## Nodes -/

theorem getElem?_addNode (g : Network) (m : Node) (i : NodeId) :
    (g.addNode m).nodeMap[i]? = if m.id = i then some m else g.nodeMap[i]? :=
  lookup_insert g.nodeMap m.id m i

theorem getElem?_foldl_addNode {ns : List Node} (ids : (ns.map Node.id).Nodup)
    (new : ∀ m ∈ ns, g.nodeMap[m.id]? = none) :
    (ns.foldl addNode g).nodeMap[i]? = some n ↔
      g.nodeMap[i]? = some n ∨ (n ∈ ns ∧ n.id = i) := by
  induction ns generalizing g with
  | nil => simp
  | cons m ns ih =>
    rw [List.map_cons, List.nodup_cons] at ids
    have apart (l : Node) (hl : l ∈ ns) : m.id ≠ l.id := by
      intro he
      exact ids.1 (he ▸ List.mem_map_of_mem hl)
    have later : ∀ l ∈ ns, (g.addNode m).nodeMap[l.id]? = none := by
      intro l hl
      rw [getElem?_addNode, if_neg (apart l hl)]
      exact new l (List.mem_cons_of_mem _ hl)
    rw [List.foldl_cons, ih ids.2 later, getElem?_addNode, List.mem_cons]
    by_cases hi : m.id = i
    · subst hi
      have unknown := new m (List.mem_cons_self ..)
      simp only [if_true, unknown, Option.some.injEq, reduceCtorEq, false_or]
      constructor
      · rintro (rfl | ⟨hn, he⟩)
        · exact ⟨Or.inl rfl, rfl⟩
        · exact ⟨Or.inr hn, he⟩
      · rintro ⟨rfl | hn, he⟩
        · exact Or.inl rfl
        · exact Or.inr ⟨hn, he⟩
    · rw [if_neg hi]
      refine or_congr_right (and_congr_left fun he => ⟨Or.inr, ?_⟩)
      rintro (rfl | hn)
      · exact absurd he hi
      · exact hn

theorem getElem?_ofNodes {ns : List Node} (ids : (ns.map Node.id).Nodup) :
    (ofNodes ns).nodeMap[i]? = some n ↔ n ∈ ns ∧ n.id = i := by
  rw [ofNodes, getElem?_foldl_addNode ids (by simp [empty])]
  simp [empty]

theorem mem_ofNodes {ns : List Node} (ids : (ns.map Node.id).Nodup) :
    i ∈ (ofNodes ns).nodeMap ↔ i ∈ ns.map Node.id := by
  rw [mem_iff_lookup, List.mem_map]
  simp only [getElem?_ofNodes ids]

theorem map_id_node (ns : List Site) : (ns.map Site.node).map Node.id = ns.map Site.id := by
  rw [List.map_map]
  rfl

theorem node?_ofNodes {ns : List Site} (ids : (ns.map Site.id).Nodup) {m : Site} (hm : m ∈ ns) :
    (ofNodes (ns.map Site.node)).node? m.id = some m.node :=
  (getElem?_ofNodes (by rw [map_id_node]; exact ids)).2 ⟨List.mem_map_of_mem hm, rfl⟩

/-! ## Edges -/

theorem edgeMap_ofNodes (ns : List Node) : (ofNodes ns).edgeMap = ∅ := by
  have keep (g : Network) : (ns.foldl addNode g).edgeMap = g.edgeMap := by
    induction ns generalizing g with
    | nil => rfl
    | cons m ns ih => exact ih (g.addNode m)
  exact keep empty

theorem ends_edgeOfLink (g : Network) (speed : Binary32) {l : Link} (h : l.a ≤ l.b) :
    (g.edgeOfLink speed l).ends = l.ends := if_pos h

theorem addEdge?_new (hl : e.source ≠ e.target)
    (hk : e.source ∈ g.nodeMap ∧ e.target ∈ g.nodeMap) (new : g.edgeMap[e.ends]? = none) :
    ∃ h, g.addEdge? e = .ok h ∧ h.nodeMap = g.nodeMap ∧
      ∀ k d, h.edgeMap[k]? = some d ↔ g.edgeMap[k]? = some d ∨ (k = e.ends ∧ d = e) := by
  refine ⟨g.putEdge e ⟨hl, hk⟩, ?_, ?_, ?_⟩
  · rw [addEdge?, dif_neg hl, dif_pos hk]
  · unfold putEdge
    split <;> rfl
  · intro k d
    have put : (g.putEdge e ⟨hl, hk⟩).edgeMap = g.edgeMap.insert e.ends e := by
      unfold putEdge
      rw [new]
      rfl
    rw [put, lookup_insert]
    by_cases he : e.ends = k
    · subst he
      simp [new, eq_comm]
    · simp [he, Ne.symm he]

/-- Sound links are added one after the other. -/
theorem foldlM_addEdge?_ok (speed : Binary32) (base : Network) {links : List Link}
    (ascending : ∀ l ∈ links, l.a ≤ l.b ∧ l.a ≠ l.b)
    (known : ∀ l ∈ links, l.a ∈ g.nodeMap ∧ l.b ∈ g.nodeMap)
    (distinct : links.Pairwise fun l k => l.ends ≠ k.ends)
    (new : ∀ l ∈ links, g.edgeMap[l.ends]? = none) :
    ∃ h, links.foldlM (fun h l => h.addEdge? (base.edgeOfLink speed l)) g = .ok h ∧
      h.nodeMap = g.nodeMap ∧
      ∀ k e, h.edgeMap[k]? = some e ↔
        g.edgeMap[k]? = some e ∨ ∃ l ∈ links, k = l.ends ∧ e = base.edgeOfLink speed l := by
  induction links generalizing g with
  | nil => exact ⟨g, rfl, rfl, by simp⟩
  | cons l links ih =>
    obtain ⟨hle, hne⟩ := ascending l (List.mem_cons_self ..)
    obtain ⟨apart, rest⟩ := List.pairwise_cons.1 distinct
    have ends := ends_edgeOfLink base speed hle
    obtain ⟨h, hok, hnodes, hedges⟩ := addEdge?_new (e := base.edgeOfLink speed l) hne
      (known l (List.mem_cons_self ..)) (by rw [ends]; exact new l (List.mem_cons_self ..))
    rw [ends] at hedges
    have later : ∀ m ∈ links, h.edgeMap[m.ends]? = none := by
      intro m hm
      cases hd : h.edgeMap[m.ends]? with
      | none => rfl
      | some d =>
        rcases (hedges _ _).1 hd with hd | ⟨he, -⟩
        · rw [new m (List.mem_cons_of_mem _ hm)] at hd
          cases hd
        · exact absurd he.symm (apart m hm)
    obtain ⟨u, huok, hunodes, huedges⟩ := ih
      (fun m hm => ascending m (List.mem_cons_of_mem _ hm))
      (fun m hm => by rw [hnodes]; exact known m (List.mem_cons_of_mem _ hm)) rest later
    refine ⟨u, ?_, hunodes.trans hnodes, fun k e => ?_⟩
    · rw [List.foldlM_cons, hok]
      exact huok
    · rw [huedges, hedges, or_assoc]
      simp only [List.mem_cons, exists_eq_or_imp]

/-- **Sites of distinct nodes and sound links between them assemble.**  The network has the nodes of
the sites, and its edges are the links. -/
theorem assemble_ok {ns : List Site} {links : List Link} (speed : Binary32)
    (ids : (ns.map Site.id).Nodup) (sound : Link.Sound (ns.map Site.id) links) :
    ∃ g, assemble ns links speed = .ok g ∧
      (∀ i n, g.nodeMap[i]? = some n ↔ ∃ m ∈ ns, m.id = i ∧ m.node = n) ∧
      ∀ k e, g.edgeMap[k]? = some e ↔
        ∃ l ∈ links, k = l.ends ∧ e = (ofNodes (ns.map Site.node)).edgeOfLink speed l := by
  have distinct : ((ns.map Site.node).map Node.id).Nodup := by rw [map_id_node]; exact ids
  have none (k : Ends) : (ofNodes (ns.map Site.node)).edgeMap[k]? = none := by
    simp [edgeMap_ofNodes]
  obtain ⟨g, hok, hnodes, hedges⟩ := foldlM_addEdge?_ok speed
    (ofNodes (ns.map Site.node)) sound.ascending
    (fun l hl => by
      rw [mem_ofNodes distinct, mem_ofNodes distinct, map_id_node]
      exact sound.known l hl)
    sound.distinct (fun l _ => none l.ends)
  refine ⟨g, hok, fun i n => ?_, fun k e => ?_⟩
  · rw [hnodes, getElem?_ofNodes distinct, List.mem_map]
    constructor
    · rintro ⟨⟨m, hm, rfl⟩, hi⟩
      exact ⟨m, hm, hi, rfl⟩
    · rintro ⟨m, hm, hi, rfl⟩
      exact ⟨⟨m, hm, rfl⟩, hi⟩
  · rw [hedges, none]
    simp

end Network

end Signalbox
