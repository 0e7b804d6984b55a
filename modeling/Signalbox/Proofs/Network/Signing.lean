import Mathlib.Data.List.Destutter
import Signalbox.Network.Signature
import Signalbox.Proofs.Network.History

/-!
# What a signature depends on

A signature is made from the names, kinds, positions and destinations of nodes.  Nodes are listed by
name before they are hashed, and of several with one name only the first one counts, so the signature
is that of a set: neither the order in which nodes were found nor how often one is listed plays a
part, and nor do the details and the edges of a network.

* `Network.nodes_ofFirsts`     : sorting by name and dropping neighbors of the same name;
* `Network.nodesByName_eq`    : the nodes of a network in any order and repetition;
* `Network.encode_nodeMap`    : the bytes of a network, told by its nodes;
* `Network.signature_made_eq` : networks with the same places have the same signature.
-/

set_option autoImplicit false

namespace Signalbox

/-! ## Nodes as they are hashed -/

namespace Node

/-- The node without its details. -/
def bare (n : Node) : Node := { n with details := none }

/-- What the bytes of a node tell: no details, and an empty destination in place of none. -/
def told (n : Node) : Node := { n with destination := some (n.destination.getD ""), details := none }

theorem signatureBytes_eq (n : Node) : n.signatureBytes =
    Digest.textBytes n.id.text ++ 0x1f :: (Digest.textBytes n.kind.text ++ (Digest.cellBytes n.pos ++
      (Digest.textBytes (n.destination.getD "") ++ [0x1e]))) := by
  have tag : (n.destination.map Digest.textBytes).getD [] =
      Digest.textBytes (n.destination.getD "") := by
    cases n.destination <;> rfl
  simp [signatureBytes, tag]

theorem signatureBytes_told (n : Node) : n.told.signatureBytes = n.signatureBytes := by
  rw [signatureBytes_eq, signatureBytes_eq]
  rfl

end Node

namespace Signature

variable {ms ns : List Node} {n : Node} {i : NodeId}

theorem mem_told_of_bare
    (same : ∀ p, p ∈ ms.map Node.bare ↔ p ∈ ns.map Node.bare) (p : Node) :
    p ∈ ms.map Node.told ↔ p ∈ ns.map Node.told := by
  have twice (ns : List Node) : ns.map Node.told = (ns.map Node.bare).map Node.told := by
    rw [List.map_map]
    rfl
  rw [twice, twice ns, List.mem_map, List.mem_map]
  exact exists_congr fun q => and_congr_left fun _ => same q

/-! ## Lookups -/

theorem getElem?_nodesByName (ns : List Node) (i : NodeId) :
    (nodesByName ns)[i]? = ns.find? fun n => n.id = i := by
  have fold (m : Std.ExtTreeMap NodeId Node) :
      (ns.foldl (fun m n => m.insertIfNew n.id n) m)[i]? = (m[i]?).or (ns.find? fun n => n.id = i) := by
    induction ns generalizing m with
    | nil => simp
    | cons n ns ih =>
      rw [List.foldl_cons, ih, lookup_insertIfNew, Option.or_assoc, List.find?_cons]
      by_cases same : n.id = i <;> simp [same]
  rw [nodesByName, fold ∅, Std.ExtTreeMap.getElem?_empty, Option.none_or]

theorem id_of_lookup (found : (nodesByName ns)[i]? = some n) : n.id = i := by
  rw [getElem?_nodesByName] at found
  simpa using List.find?_some found

theorem getElem?_nodesByName_of_unique (unique : ∀ a ∈ ns, ∀ b ∈ ns, a.id = b.id → a = b) :
    (nodesByName ns)[i]? = some n ↔ n ∈ ns ∧ n.id = i := by
  constructor
  · intro found
    have id := id_of_lookup found
    rw [getElem?_nodesByName] at found
    exact ⟨List.mem_of_find?_eq_some found, id⟩
  · rintro ⟨mem, rfl⟩
    rw [getElem?_nodesByName]
    cases found : ns.find? fun a => a.id = n.id with
    | none => exact absurd (decide_eq_true rfl) (List.find?_eq_none.1 found n mem)
    | some a =>
      have same : a.id = n.id := by simpa using List.find?_some found
      rw [unique a (List.mem_of_find?_eq_some found) n mem same]

/-! ## Sorting -/

/-- The nodes of a list by name, without those that follow a node of the same name. -/
def listing (ns : List Node) : List Node :=
  (ns.mergeSort fun m n => decide (m.id ≤ n.id)).destutter fun m n => m.id ≠ n.id

theorem id_le_trans (a b c : Node) (hab : decide (a.id ≤ b.id) = true)
    (hbc : decide (b.id ≤ c.id) = true) : decide (a.id ≤ c.id) = true :=
  decide_eq_true (Ident.le_trans (of_decide_eq_true hab) (of_decide_eq_true hbc))

theorem id_le_total (a b : Node) : (decide (a.id ≤ b.id) || decide (b.id ≤ a.id)) = true := by
  simpa using Ident.le_total a.id b.id

/-- Sorting is stable: the first node of a name stays the first. -/
theorem find?_mergeSort (ns : List Node) (i : NodeId) :
    (ns.mergeSort fun m n => decide (m.id ≤ n.id)).find? (fun n => n.id = i) =
      ns.find? fun n => n.id = i := by
  have ties (a b : Node) (ha : decide (a.id = i) = true) (hb : decide (b.id = i) = true) :
      decide (a.id ≤ b.id) = true := by
    rw [of_decide_eq_true ha, of_decide_eq_true hb]
    exact decide_eq_true (String.le_refl _)
  rw [← List.head?_filter, ← List.head?_filter, filter_mergeSort id_le_trans id_le_total ties]

variable {a : Node}

/-- Nodes that follow one another have different names, so a sorted list ascends. -/
theorem pairwise_destutter' (sorted : (a :: ns).Pairwise fun m n => m.id ≤ n.id) :
    (ns.destutter' (fun m n => m.id ≠ n.id) a).Pairwise fun m n => m.id < n.id := by
  induction ns generalizing a with
  | nil => exact List.pairwise_singleton _ _
  | cons b ns ih =>
    obtain ⟨least, rest⟩ := List.pairwise_cons.1 sorted
    have le : a.id ≤ b.id := least b (List.mem_cons_self ..)
    by_cases same : a.id = b.id
    · rw [List.destutter'_cons_neg _ (not_not.2 same)]
      exact ih (List.pairwise_cons.2 ⟨fun n hn => least n (List.mem_cons_of_mem _ hn), rest.of_cons⟩)
    · rw [List.destutter'_cons_pos _ same]
      refine List.pairwise_cons.2 ⟨fun n hn => ?_, ih rest⟩
      have lt : a.id < b.id := Ident.lt_iff_le_and_ne.2 ⟨le, same⟩
      rcases List.mem_cons.1 ((List.destutter'_sublist _ _ _).subset hn) with rfl | hn
      · exact lt
      · exact Ident.lt_of_lt_of_le lt ((List.pairwise_cons.1 rest).1 n hn)

theorem find?_destutter' (ns : List Node) (a : Node) (i : NodeId) :
    (ns.destutter' (fun m n => m.id ≠ n.id) a).find? (fun n => n.id = i) =
      (a :: ns).find? fun n => n.id = i := by
  induction ns generalizing a with
  | nil => rfl
  | cons b ns ih =>
    by_cases same : a.id = b.id
    · rw [List.destutter'_cons_neg _ (not_not.2 same), ih]
      simp only [List.find?_cons, same]
      cases decide (b.id = i) <;> rfl
    · rw [List.destutter'_cons_pos _ same]
      simp only [List.find?_cons, ih]

theorem pairwise_listing (ns : List Node) : (listing ns).Pairwise fun m n => m.id < n.id := by
  have sorted := (List.pairwise_mergeSort id_le_trans id_le_total ns).imp of_decide_eq_true
  unfold listing
  generalize ns.mergeSort (fun m n => decide (m.id ≤ n.id)) = sortedList at sorted
  cases sortedList with
  | nil => exact List.Pairwise.nil
  | cons a ns => exact pairwise_destutter' sorted

theorem find?_listing (ns : List Node) (i : NodeId) :
    (listing ns).find? (fun n => n.id = i) = ns.find? fun n => n.id = i := by
  rw [← find?_mergeSort ns]
  unfold listing
  cases ns.mergeSort fun m n => decide (m.id ≤ n.id) with
  | nil => rfl
  | cons a ns => exact find?_destutter' ns a i

theorem nodup_ids_listing (ns : List Node) : ((listing ns).map Node.id).Nodup :=
  List.pairwise_map.2 ((pairwise_listing ns).imp fun lt => (Ident.lt_iff_le_and_ne.1 lt).2)

theorem eq_of_ascending (hm : ms.Pairwise fun m n => m.id < n.id)
    (hn : ns.Pairwise fun m n => m.id < n.id) (same : ∀ n, n ∈ ms ↔ n ∈ ns) : ms = ns :=
  eq_of_ordered (fun _ _ lt => Ident.not_lt.2 (Ident.lt_iff_le_and_ne.1 lt).1) hm hn same

end Signature

namespace Network

variable {g h : Network} {ns : List Node}

/-- The nodes of a list without edges, of several with one name the first. -/
def ofFirsts (ns : List Node) : Network where
  nodeMap := nodesByName ns
  edgeMap := empty.edgeMap
  node_id i n := Signature.id_of_lookup
  edge_ends := empty.edge_ends
  edge_known k e found := by
    rw [empty, Std.ExtTreeMap.getElem?_empty] at found
    cases found

/-- **Sorting by name and dropping neighbors of the same name** leaves the nodes by name, of several
with one name the first. -/
theorem nodes_ofFirsts (ns : List Node) : (ofFirsts ns).nodes = Signature.listing ns := by
  have unique : ∀ a ∈ Signature.listing ns, ∀ b ∈ Signature.listing ns, a.id = b.id → a = b :=
    fun a ha b hb => List.inj_on_of_nodup_map (Signature.nodup_ids_listing ns) ha hb
  have mem (n : Node) : n ∈ (ofFirsts ns).nodes ↔ n ∈ Signature.listing ns := by
    rw [mem_nodes, ofFirsts, Signature.getElem?_nodesByName, ← Signature.find?_listing,
      ← Signature.getElem?_nodesByName, Signature.getElem?_nodesByName_of_unique unique,
      and_iff_left rfl]
  exact Signature.eq_of_ascending (sorted_nodes _) (Signature.pairwise_listing ns) mem

/-- The nodes of a network are the same in any order and repetition. -/
theorem nodesByName_eq (same : ∀ n, n ∈ ns ↔ n ∈ g.nodes) : nodesByName ns = g.nodeMap := by
  have unique : ∀ a ∈ ns, ∀ b ∈ ns, a.id = b.id → a = b := by
    intro a ha b hb ids
    have filed := mem_nodes.1 ((same a).1 ha)
    rw [ids, mem_nodes.1 ((same b).1 hb)] at filed
    exact (Option.some.inj filed).symm
  apply Std.ExtTreeMap.ext_getElem?
  intro i
  apply Option.ext
  intro n
  rw [Signature.getElem?_nodesByName_of_unique unique, same, mem_nodes]
  constructor
  · rintro ⟨filed, rfl⟩
    exact filed
  · intro filed
    obtain rfl := g.node_id i n filed
    exact ⟨filed, rfl⟩

/-! ## Bytes -/

theorem encode_nodeMap (g : Network) :
    Signature.encode g.nodeMap = g.nodes.flatMap Node.signatureBytes := by
  simp only [Signature.encode, nodes, List.flatMap_map]

/-- What nodes tell by name depends on no more than which of it there is. -/
theorem told_nodes_eq (same : ∀ p, p ∈ g.nodes.map Node.told ↔ p ∈ h.nodes.map Node.told) :
    g.nodes.map Node.told = h.nodes.map Node.told := by
  have ascending (g : Network) : (g.nodes.map Node.told).Pairwise fun m n => m.id < n.id :=
    List.pairwise_map.2 g.sorted_nodes
  exact Signature.eq_of_ascending (ascending g) (ascending h) same

theorem encode_eq_of_told (same : ∀ p, p ∈ g.nodes.map Node.told ↔ p ∈ h.nodes.map Node.told) :
    Signature.encode g.nodeMap = Signature.encode h.nodeMap := by
  have bytes (ns : List Node) :
      ns.flatMap Node.signatureBytes = (ns.map Node.told).flatMap Node.signatureBytes := by
    simp only [List.flatMap_map, Node.signatureBytes_told]
  rw [encode_nodeMap, encode_nodeMap, bytes, told_nodes_eq same, ← bytes]

open Addition

variable {cs ds : List Addition}

/-- **Networks with the same places have the same signature.**  Two lists of calls come to the same
signature if the nodes that they add last agree but for their details.  It is the signature of the
nodes of the network listed in any order and any number of times, and the signature of a list is the
hash of the bytes of its nodes, sorted by name and without those that follow one of the same name. -/
theorem signature_made_eq
    (same : ∀ p, (∃ n, AddedLast cs n ∧ n.bare = p) ↔ ∃ n, AddedLast ds n ∧ n.bare = p) :
    (made cs).signature = (made ds).signature ∧
    (∀ ns : List Node, (∀ n, n ∈ ns ↔ n ∈ (made cs).nodes) →
      Signature.ofNodes ns = (made ds).signature) ∧
    ∀ ns : List Node, Signature.ofNodes ns =
      ⟨Digest.XXH64.hash ((Signature.listing ns).flatMap Node.signatureBytes)⟩ := by
  have bare : ∀ p, p ∈ (made cs).nodes.map Node.bare ↔ p ∈ (made ds).nodes.map Node.bare := by
    simpa only [List.mem_map, mem_nodes_made] using same
  have bytes : Signature.encode (made cs).nodeMap = Signature.encode (made ds).nodeMap :=
    encode_eq_of_told (Signature.mem_told_of_bare bare)
  refine ⟨?_, fun ns listed => ?_, fun ns => ?_⟩
  · rw [signature, bytes, ← signature]
  · rw [Signature.ofNodes, nodesByName_eq listed, bytes, ← signature]
  · rw [← nodes_ofFirsts, ← encode_nodeMap]
    rfl

/-- Calls in another order, one of which replaces a node, and an edge and details besides: the
signature is the same. -/
theorem signature_made_eq_replaced :
    let depot (name : String) (x : Int32) : Node := ⟨⟨name⟩, .depot, ⟨x, 64, 0⟩, some "yard", none⟩
    let line : Edge := { source := ⟨"A"⟩, target := ⟨"B"⟩, length := 5, speedLimit := ⟨1090519040⟩ }
    let cs := [Addition.node (depot "A" 7), .node (depot "B" 5), .node (depot "A" 0), .edge line]
    let ds := [Addition.node (depot "A" 0),
      .node { depot "B" 5 with details := some { name := some "east" } }]
    (∀ p, (∃ n, AddedLast cs n ∧ n.bare = p) ↔ ∃ n, AddedLast ds n ∧ n.bare = p) ∧
    (made cs).signature = (made ds).signature ∧
    Signature.ofNodes ((made cs).nodes ++ (made cs).nodes.reverse) = (made ds).signature := by
  intro depot line cs ds
  have bare : (made cs).nodes.map Node.bare = (made ds).nodes.map Node.bare := by decide +kernel
  have same : ∀ p, (∃ n, AddedLast cs n ∧ n.bare = p) ↔ ∃ n, AddedLast ds n ∧ n.bare = p := by
    intro p
    simp only [← mem_nodes_made]
    rw [← List.mem_map, ← List.mem_map, bare]
  obtain ⟨made, listed, -⟩ := signature_made_eq same
  exact ⟨same, made, listed _ (by simp)⟩

end Network

end Signalbox
