import Signalbox.Proofs.Network.Signing
import Signalbox.Proofs.Text.Reading

/-!
# Reading nodes back from their bytes

The bytes that are hashed for a set of nodes are read from left to right: a name up to the separator,
one of four kinds of which none begins like another, twelve bytes of a position, and a destination up
to the end mark.  So they tell the nodes apart, as long as no name has the separator in it and no
destination the end mark.  What they never tell is whether a node has no destination or an empty one.

* `NodeKind.textBytes_append_inj`  : no kind begins like another;
* `Node.signatureBytes_append_inj` : one node is read back, and what follows it;
* `Signature.encode_eq_iff`        : when two sets of nodes have the same bytes;
* `Signature.encode_confuses`      : sets of nodes with the same bytes.
-/

set_option autoImplicit false

namespace Signalbox

open Digest (textBytes cellBytes)

/-! ## One node -/

namespace NodeKind

variable {k l : NodeKind} {x y : List UInt8}

theorem eq_of_begins (h : textBytes k.text <+: textBytes l.text) : k = l := by
  cases k <;> cases l <;> first | rfl | exact absurd h (by decide)

/-- No kind begins like another, so a kind is read back from the front of a list. -/
theorem textBytes_append_inj (h : textBytes k.text ++ x = textBytes l.text ++ y) : k = l ∧ x = y := by
  have same : k = l := by
    rcases List.prefix_or_prefix_of_prefix (List.prefix_append _ x) (h ▸ List.prefix_append _ y) with
      shorter | shorter
    · exact eq_of_begins shorter
    · exact (eq_of_begins shorter).symm
  subst same
  exact ⟨rfl, List.append_cancel_left h⟩

end NodeKind

namespace Node

variable {m n : Node} {x y : List UInt8}

/-- The name has no separator in it and the destination no end mark. -/
structure Plain (n : Node) : Prop where
  name : '\x1f' ∉ n.id.text.toList
  destination : ∀ d, n.destination = some d → '\x1e' ∉ d.toList

theorem Plain.not_mem_name (h : n.Plain) : 0x1f ∉ textBytes n.id.text :=
  Digest.not_mem_textBytes '\x1f' (by decide) (by decide) h.name

theorem Plain.not_mem_destination (h : n.Plain) : 0x1e ∉ textBytes (n.destination.getD "") := by
  refine Digest.not_mem_textBytes '\x1e' (by decide) (by decide) ?_
  cases tag : n.destination with
  | none => simp
  | some d => exact h.destination d tag

/-- **A node is read back from the front of a list**, but for its details and whether its destination
is absent or empty. -/
theorem signatureBytes_append_inj (hm : m.Plain) (hn : n.Plain)
    (h : m.signatureBytes ++ x = n.signatureBytes ++ y) : m.told = n.told ∧ x = y := by
  simp only [signatureBytes_eq, List.append_assoc, List.cons_append, List.nil_append] at h
  obtain ⟨name, h⟩ := eq_of_append_cons hm.not_mem_name hn.not_mem_name h
  obtain ⟨kind, h⟩ := NodeKind.textBytes_append_inj h
  obtain ⟨pos, h⟩ := List.append_inj h (by rw [Digest.length_cellBytes, Digest.length_cellBytes])
  obtain ⟨tag, rest⟩ := eq_of_append_cons hm.not_mem_destination hn.not_mem_destination h
  refine ⟨?_, rest⟩
  simp only [told, Node.mk.injEq, and_true]
  exact ⟨Ident.ext_text (Digest.textBytes_injective name), kind, Digest.cellBytes_injective pos,
    congrArg some (Digest.textBytes_injective tag)⟩

theorem bare_eq_of_told (hm : m.destination ≠ some "") (hn : n.destination ≠ some "")
    (h : m.told = n.told) : m.bare = n.bare := by
  simp only [told, Node.mk.injEq, and_true, Option.some.injEq] at h
  obtain ⟨id, kind, pos, tag⟩ := h
  have same : m.destination = n.destination := by
    cases dm : m.destination <;> cases dn : n.destination <;> simp_all
  simp [bare, id, kind, pos, same]

end Node

/-! ## Lists of nodes -/

namespace Signature

variable {ms ns : List Node}

/-- Nodes are read back one after the other. -/
theorem told_eq_of_bytes (hm : ∀ n ∈ ms, n.Plain) (hn : ∀ n ∈ ns, n.Plain)
    (h : ms.flatMap Node.signatureBytes = ns.flatMap Node.signatureBytes) :
    ms.map Node.told = ns.map Node.told := by
  have nonempty (n : Node) (x : List UInt8) : n.signatureBytes ++ x ≠ [] := by
    simp [Node.signatureBytes_eq]
  induction ms generalizing ns with
  | nil =>
    cases ns with
    | nil => rfl
    | cons n ns => exact absurd h.symm (nonempty n _)
  | cons m ms ih =>
    cases ns with
    | nil => exact absurd h (nonempty m _)
    | cons n ns =>
      rw [List.flatMap_cons, List.flatMap_cons] at h
      obtain ⟨first, rest⟩ := Node.signatureBytes_append_inj (hm m (List.mem_cons_self ..))
        (hn n (List.mem_cons_self ..)) h
      rw [List.map_cons, List.map_cons, first,
        ih (fun k hk => hm k (List.mem_cons_of_mem _ hk)) (fun k hk => hn k (List.mem_cons_of_mem _ hk))
          rest]

theorem mem_nodes_ofFirsts (ids : (ns.map Node.id).Nodup) (n : Node) :
    n ∈ (Network.ofFirsts ns).nodes ↔ n ∈ ns := by
  rw [Network.mem_nodes, Network.ofFirsts, getElem?_nodesByName_of_unique, and_iff_left rfl]
  exact fun a ha b hb => List.inj_on_of_nodup_map ids ha hb

theorem encode_eq_iff_told (hm : (ms.map Node.id).Nodup) (hn : (ns.map Node.id).Nodup)
    (plainM : ∀ n ∈ ms, n.Plain) (plainN : ∀ n ∈ ns, n.Plain) :
    encode (nodesByName ms) = encode (nodesByName ns) ↔
      ∀ p, p ∈ ms.map Node.told ↔ p ∈ ns.map Node.told := by
  have mem (p : Node) {ns : List Node} (ids : (ns.map Node.id).Nodup) :
      p ∈ (Network.ofFirsts ns).nodes.map Node.told ↔ p ∈ ns.map Node.told := by
    simp only [List.mem_map, mem_nodes_ofFirsts ids]
  constructor
  · intro h p
    have plain {ns : List Node} (ids : (ns.map Node.id).Nodup) (plain : ∀ n ∈ ns, n.Plain) (n : Node)
        (hn : n ∈ (Network.ofFirsts ns).nodes) : n.Plain := plain n ((mem_nodes_ofFirsts ids n).1 hn)
    have told := told_eq_of_bytes (plain hm plainM) (plain hn plainN) (by
      rw [← Network.encode_nodeMap, ← Network.encode_nodeMap]
      exact h)
    rw [← mem p hm, told, mem p hn]
  · intro same
    have bytes : encode (Network.ofFirsts ms).nodeMap = encode (Network.ofFirsts ns).nodeMap :=
      Network.encode_eq_of_told fun p => (mem p hm).trans ((same p).trans (mem p hn).symm)
    exact bytes

/-- Without empty destinations nodes tell the same only if they agree but for their details. -/
theorem mem_told_iff_bare (tags : ∀ n ∈ ms ++ ns, n.destination ≠ some "") :
    (∀ p, p ∈ ms.map Node.told ↔ p ∈ ns.map Node.told) ↔
      ∀ p, p ∈ ms.map Node.bare ↔ p ∈ ns.map Node.bare := by
  refine ⟨fun same => ?_, mem_told_of_bare⟩
  have bare {as bs : List Node} (sub : ∀ p, p ∈ as.map Node.told → p ∈ bs.map Node.told)
      (ha : ∀ n ∈ as, n.destination ≠ some "") (hb : ∀ n ∈ bs, n.destination ≠ some "")
      (p : Node) (hp : p ∈ as.map Node.bare) : p ∈ bs.map Node.bare := by
    obtain ⟨n, hn, rfl⟩ := List.mem_map.1 hp
    obtain ⟨k, hk, told⟩ := List.mem_map.1 (sub n.told (List.mem_map_of_mem hn))
    exact List.mem_map.2 ⟨k, hk, Node.bare_eq_of_told (hb k hk) (ha n hn) told⟩
  have hm (n : Node) (hn : n ∈ ms) := tags n (List.mem_append_left ns hn)
  have hn (n : Node) (hn : n ∈ ns) := tags n (List.mem_append_right ms hn)
  exact fun p => ⟨bare (fun p => (same p).1) hm hn p, bare (fun p => (same p).2) hn hm p⟩

/-- **When two sets of nodes have the same bytes.**  Where no name has the separator in it and no
destination the end mark, they have the same bytes exactly if they agree in names, kinds, positions
and destinations, an empty destination being as good as none; and if no destination is empty, exactly
if they agree in all of these. -/
theorem encode_eq_iff (hm : (ms.map Node.id).Nodup) (hn : (ns.map Node.id).Nodup)
    (plainM : ∀ n ∈ ms, n.Plain) (plainN : ∀ n ∈ ns, n.Plain) :
    (encode (nodesByName ms) = encode (nodesByName ns) ↔
      ∀ p, p ∈ ms.map Node.told ↔ p ∈ ns.map Node.told) ∧
    ((∀ n ∈ ms ++ ns, n.destination ≠ some "") →
      (encode (nodesByName ms) = encode (nodesByName ns) ↔
        ∀ p, p ∈ ms.map Node.bare ↔ p ∈ ns.map Node.bare)) := by
  have told := encode_eq_iff_told hm hn plainM plainN
  exact ⟨told, fun tags => told.trans (mem_told_iff_bare tags)⟩

/-- Two depots that differ in the destination of one have different bytes. -/
theorem encode_eq_iff_depots :
    let depot (name : String) (tag : String) : Node := ⟨⟨name⟩, .depot, ⟨0, 64, 0⟩, some tag, none⟩
    let ms := [depot "A" "east", depot "B" "west"]
    let ns := [depot "B" "north", depot "A" "east"]
    ((ms.map Node.id).Nodup ∧ (ns.map Node.id).Nodup ∧ (∀ n ∈ ms, n.Plain) ∧ (∀ n ∈ ns, n.Plain) ∧
      ∀ n ∈ ms ++ ns, n.destination ≠ some "") ∧
    encode (nodesByName ms) ≠ encode (nodesByName ns) := by
  intro depot ms ns
  have idsM : (ms.map Node.id).Nodup := by decide
  have idsN : (ns.map Node.id).Nodup := by decide
  have plain (n : Node) (name : '\x1f' ∉ n.id.text.toList)
      (tag : '\x1e' ∉ (n.destination.getD "").toList) : n.Plain :=
    ⟨name, fun d hd => by rwa [hd] at tag⟩
  have plainM : ∀ n ∈ ms, n.Plain := by
    intro n hn
    apply plain
    all_goals revert n; decide
  have plainN : ∀ n ∈ ns, n.Plain := by
    intro n hn
    apply plain
    all_goals revert n; decide
  have tags : ∀ n ∈ ms ++ ns, n.destination ≠ some "" := by decide
  refine ⟨⟨idsM, idsN, plainM, plainN, tags⟩, fun same => ?_⟩
  have agree := ((encode_eq_iff idsM idsN plainM plainN).2 tags).1 same
  exact absurd ((agree (depot "B" "west").bare).1 (by decide)) (by decide)

/-- A switcher with an empty destination has the bytes of one without a destination, which stands in
until it gets one.  Nor are two depots told from one whose destination spells the second, or a name
that spells a kind and a position from a destination that does. -/
theorem encode_confuses :
    let node (name : String) (kind : NodeKind) (tag : Option String) : Node :=
      ⟨⟨name⟩, kind, ⟨0, 0, 0⟩, tag, none⟩
    let nul := String.ofList (List.replicate 12 '\x00')
    let confused (ms ns : List Node) : Prop := (ms.map Node.id).Nodup ∧ (ns.map Node.id).Nodup ∧
      ms.map Node.bare ≠ ns.map Node.bare ∧ encode (nodesByName ms) = encode (nodesByName ns)
    (confused [node "S" .switcher none] [node "S" .switcher (some "")] ∧
      (node "S" .switcher none).isProvisional ≠ (node "S" .switcher (some "")).isProvisional) ∧
    confused [node "A" .depot none, node "B" .depot none]
      [node "A" .depot (some ("\x1eB\x1fdepot" ++ nul))] ∧
    confused [node ("A\x1fdepot" ++ nul ++ "x") .depot none]
      [node "A" .depot (some ("x\x1fdepot" ++ nul))] := by
  intro node nul confused
  refine ⟨⟨⟨?_, ?_, ?_, ?_⟩, ?_⟩, ⟨?_, ?_, ?_, ?_⟩, ?_, ?_, ?_, ?_⟩ <;> decide +kernel

end Signature

end Signalbox
