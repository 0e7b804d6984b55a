import Mathlib.Data.List.Induction
import Mathlib.Logic.Equiv.Basic
import Mathlib.Tactic.IntervalCases
import Signalbox.Proofs.Network.Chart

/-!
# Networks and the calls that made them

A network is made by adding nodes and edges one call after the other, and every call looks at nothing
but the network so far.  Here is what comes of it, said about the whole list of calls: the node added
last under an id stays, and of the edges accepted between two nodes the first of the shortest ones.
Both are proved by induction on the list from its end.

* `Network.getElem?_nodeMap_made`, `Network.getElem?_edgeMap_made` : what a network files;
* `Network.addEdge?_eq_error_iff` : which edges are refused;
* `Network.made_eq_of_reordered`  : when the order of the calls does not matter;
* `Network.made_represented`      : the chart of a network, told by the calls that made it.
-/

set_option autoImplicit false

namespace Signalbox

/-- A call that adds to a network. -/
inductive Addition where
  | node (n : Node)
  | edge (e : Edge)
deriving DecidableEq

namespace Addition

variable {cs ds : List Addition} {c : Addition} {n m : Node} {e d : Edge} {i : NodeId} {k l : Nat}

/-! ## What calls say -/

/-- Some call adds a node of this id. -/
def Names (cs : List Addition) (i : NodeId) : Prop := ∃ n, Addition.node n ∈ cs ∧ n.id = i

/-- An edge joins two different nodes that some calls have added. -/
def Joins (cs : List Addition) (e : Edge) : Prop :=
  e.source ≠ e.target ∧ Names cs e.source ∧ Names cs e.target

/-- Why an edge is refused after some calls. -/
inductive Refused (cs : List Addition) (e : Edge) : EdgeRefusal → Prop
  | selfLoop : e.source = e.target → Refused cs e (.selfLoop e.source)
  | unknownEnd : e.source ≠ e.target → ¬ (Names cs e.source ∧ Names cs e.target) →
    Refused cs e (.unknownEnd e.source e.target)

/-- No later call adds a node of the same id. -/
def AddedLast (cs : List Addition) (n : Node) : Prop :=
  ∃ k : Nat, cs[k]? = some (.node n) ∧
    ∀ (l : Nat) (m : Node), k < l → cs[l]? = some (.node m) → m.id ≠ n.id

/-- The call in a place adds an edge between nodes that were added before. -/
def AcceptedAt (cs : List Addition) (k : Nat) (e : Edge) : Prop :=
  cs[k]? = some (.edge e) ∧ Joins (cs.take k) e

/-- Of the edges accepted between the same two nodes, this one is the first of the shortest. -/
def FirstShortest (cs : List Addition) (e : Edge) : Prop :=
  ∃ k, AcceptedAt cs k e ∧ ∀ l d, AcceptedAt cs l d → d.ends = e.ends →
    e.length < d.length ∨ (e.length = d.length ∧ k ≤ l)

/-- No two calls add nodes of the same id. -/
def DistinctIds (cs : List Addition) : Prop :=
  ∀ (k l : Nat) (m n : Node), cs[k]? = some (.node m) → cs[l]? = some (.node n) → m.id = n.id → k = l

/-- No two accepted edges between the same two nodes have the same length. -/
def DistinctLengths (cs : List Addition) : Prop :=
  ∀ k l d e, AcceptedAt cs k d → AcceptedAt cs l e → d.ends = e.ends → d.length = e.length → k = l

/-- Whether the first of two calls adds an end of the edge that the second one adds. -/
def isEndOf : Addition → Addition → Bool
  | .node n, .edge e => e.touches n.id
  | _, _ => false

/-- The same calls in another order, in which every node stands on the same side of its edges.  An
edge before one of its nodes is refused, so it may not move behind that node either. -/
structure Reordering (cs ds : List Addition) where
  place : Fin cs.length ≃ Fin ds.length
  same : ∀ k, ds[place k] = cs[k]
  keeps : ∀ k l, isEndOf cs[k] cs[l] = true → (k < l ↔ place k < place l)

/-! ## One more call -/

theorem names_concat : Names (cs ++ [c]) i ↔ Names cs i ∨ ∃ n, c = .node n ∧ n.id = i := by
  unfold Names
  simp only [List.mem_append, List.mem_singleton, or_and_right, exists_or, eq_comm (b := c)]

theorem addedLast_node : AddedLast (cs ++ [.node m]) n ↔ n = m ∨ (m.id ≠ n.id ∧ AddedLast cs n) := by
  unfold AddedLast
  simp only [getElem?_concat_eq_some, Addition.node.injEq]
  constructor
  · rintro ⟨k, hk | ⟨rfl, rfl⟩, later⟩
    · have inside := (List.getElem?_eq_some_iff.1 hk).1
      exact Or.inr ⟨later cs.length m inside (Or.inr ⟨rfl, rfl⟩), k, hk,
        fun l x hl hx => later l x hl (Or.inl hx)⟩
    · exact Or.inl rfl
  · rintro (rfl | ⟨apart, k, hk, later⟩)
    · refine ⟨cs.length, Or.inr ⟨rfl, rfl⟩, fun l x hl hx => ?_⟩
      rcases hx with hx | ⟨rfl, -⟩
      · have inside := (List.getElem?_eq_some_iff.1 hx).1
        omega
      · omega
    · refine ⟨k, Or.inl hk, fun l x hl hx => ?_⟩
      rcases hx with hx | ⟨-, rfl⟩
      · exact later l x hl hx
      · exact apart

theorem addedLast_edge : AddedLast (cs ++ [.edge d]) n ↔ AddedLast cs n := by
  unfold AddedLast
  simp [getElem?_concat_eq_some]

theorem acceptedAt_concat :
    AcceptedAt (cs ++ [c]) k e ↔ AcceptedAt cs k e ∨ (k = cs.length ∧ c = .edge e ∧ Joins cs e) := by
  unfold AcceptedAt
  rw [getElem?_concat_eq_some, or_and_right]
  refine or_congr (and_congr_right fun hk => ?_) ?_
  · have inside := (List.getElem?_eq_some_iff.1 hk).1
    rw [List.take_append_of_le_length (Nat.le_of_lt inside)]
  · rw [and_assoc]
    refine and_congr_right fun hk => ?_
    rw [hk, List.take_left, eq_comm]

theorem lt_length_of_acceptedAt (h : AcceptedAt cs k e) : k < cs.length :=
  (List.getElem?_eq_some_iff.1 h.1).1

theorem firstShortest_node : FirstShortest (cs ++ [.node m]) e ↔ FirstShortest cs e := by
  unfold FirstShortest
  simp [acceptedAt_concat]

theorem firstShortest_of_not_joins (h : ¬ Joins cs d) :
    FirstShortest (cs ++ [.edge d]) e ↔ FirstShortest cs e := by
  have same (k : Nat) (x : Edge) : AcceptedAt (cs ++ [.edge d]) k x ↔ AcceptedAt cs k x := by
    rw [acceptedAt_concat, or_iff_left]
    rintro ⟨-, he, joins⟩
    cases he
    exact h joins
  unfold FirstShortest
  simp only [same]

/-- An accepted edge counts if every edge before it between the same nodes is longer. -/
theorem firstShortest_edge (h : Joins cs d) :
    FirstShortest (cs ++ [.edge d]) e ↔
      (e = d ∧ ∀ l x, AcceptedAt cs l x → x.ends = d.ends → d.length < x.length) ∨
        (FirstShortest cs e ∧ (d.ends = e.ends → e.length ≤ d.length)) := by
  unfold FirstShortest
  simp only [acceptedAt_concat, Addition.edge.injEq]
  constructor
  · rintro ⟨k, hk | ⟨rfl, rfl, -⟩, least⟩
    · refine Or.inr ⟨⟨k, hk, fun l x hl => least l x (Or.inl hl)⟩, fun same => ?_⟩
      rcases least cs.length d (Or.inr ⟨rfl, rfl, h⟩) same with lt | ⟨eq, -⟩ <;> omega
    · refine Or.inl ⟨rfl, fun l x hl same => ?_⟩
      rcases least l x (Or.inl hl) same with lt | ⟨-, le⟩
      · exact lt
      · have inside := lt_length_of_acceptedAt hl
        omega
  · rintro (⟨rfl, shorter⟩ | ⟨⟨k, hk, least⟩, le⟩)
    · refine ⟨cs.length, Or.inr ⟨rfl, rfl, h⟩, fun l x hl same => ?_⟩
      rcases hl with hl | ⟨rfl, rfl, -⟩
      · exact Or.inl (shorter l x hl same)
      · exact Or.inr ⟨rfl, Nat.le_refl _⟩
    · refine ⟨k, Or.inl hk, fun l x hl same => ?_⟩
      rcases hl with hl | ⟨rfl, rfl, -⟩
      · exact least l x hl same
      · have inside := lt_length_of_acceptedAt hk
        have bound := le same
        omega

theorem exists_firstShortest {x : Edge} (h : AcceptedAt cs l x) :
    ∃ e, FirstShortest cs e ∧ e.ends = x.ends := by
  induction cs using List.reverseRecOn generalizing l x with
  | nil => exact absurd (lt_length_of_acceptedAt h) (Nat.not_lt_zero l)
  | append_singleton cs c ih =>
    cases c with
    | node m =>
      simp only [acceptedAt_concat, reduceCtorEq, false_and, and_false, or_false] at h
      simp only [firstShortest_node]
      exact ih h
    | edge d =>
      by_cases joins : Joins cs d
      · simp only [firstShortest_edge joins]
        by_cases old : ∃ e, FirstShortest cs e ∧ e.ends = x.ends
        · obtain ⟨e, first, same⟩ := old
          by_cases stays : d.ends = e.ends → e.length ≤ d.length
          · exact ⟨e, Or.inr ⟨first, stays⟩, same⟩
          · simp only [Classical.not_imp, Nat.not_le] at stays
            obtain ⟨ends, shorter⟩ := stays
            obtain ⟨k, -, least⟩ := first
            refine ⟨d, Or.inl ⟨rfl, fun l y hy hends => ?_⟩, ends.trans same⟩
            rcases least l y hy (hends.trans ends) with lt | ⟨eq, -⟩ <;> omega
        · -- no edge was accepted between the two nodes before
          rcases acceptedAt_concat.1 h with h | ⟨-, he, -⟩
          · exact absurd (ih h) old
          · cases he
            refine ⟨x, Or.inl ⟨rfl, fun l y hy hends => absurd ?_ old⟩, rfl⟩
            rw [← hends]
            exact ih hy
      · rcases acceptedAt_concat.1 h with h | ⟨-, he, joined⟩
        · simp only [firstShortest_of_not_joins joins]
          exact ih h
        · cases he
          exact absurd joined joins

/-! ## Other orders -/

namespace Reordering

variable (o : Reordering cs ds)
include o

/-- Back to the first order. -/
def symm : Reordering ds cs where
  place := o.place.symm
  same k := by simp [← o.same (o.place.symm k)]
  keeps k l h := by
    have back := o.keeps (o.place.symm k) (o.place.symm l)
    simp only [← o.same, Equiv.apply_symm_apply] at back
    exact (back h).symm

/-- Where a call stands in the other order. -/
theorem exists_place (h : cs[k]? = some c) :
    ∃ hk : k < cs.length, ds[(o.place ⟨k, hk⟩).val]? = some c := by
  obtain ⟨hk, rfl⟩ := List.getElem?_eq_some_iff.1 h
  refine ⟨hk, ?_⟩
  rw [List.getElem?_eq_getElem (o.place ⟨k, hk⟩).isLt]
  exact congrArg some (o.same ⟨k, hk⟩)

theorem names_take (hl : cs[l]? = some (.edge e)) (touches : e.touches i = true) (inside : l < cs.length)
    (h : Names (cs.take l) i) : Names (ds.take (o.place ⟨l, inside⟩)) i := by
  obtain ⟨n, mem, rfl⟩ := h
  obtain ⟨k, hk⟩ := List.getElem?_of_mem mem
  rw [List.getElem?_take] at hk
  split at hk
  · rename_i before
    obtain ⟨hkl, stands⟩ := o.exists_place hk
    have isEnd : isEndOf cs[k] cs[l] = true := by
      rw [(List.getElem?_eq_some_iff.1 hk).2, (List.getElem?_eq_some_iff.1 hl).2]
      exact touches
    have moved := (o.keeps ⟨k, hkl⟩ ⟨l, inside⟩ isEnd).1 before
    refine ⟨n, List.mem_of_getElem? (i := (o.place ⟨k, hkl⟩).val) ?_, rfl⟩
    rw [List.getElem?_take, if_pos (Fin.lt_def.1 moved), stands]
  · cases hk

theorem acceptedAt (h : AcceptedAt cs l e) :
    ∃ inside : l < cs.length, AcceptedAt ds (o.place ⟨l, inside⟩) e := by
  obtain ⟨hl, apart, source, target⟩ := h
  obtain ⟨inside, stands⟩ := o.exists_place hl
  exact ⟨inside, stands, apart, o.names_take hl (by simp [Edge.touches]) inside source,
    o.names_take hl (by simp [Edge.touches]) inside target⟩

theorem distinctIds (h : DistinctIds cs) : DistinctIds ds := by
  intro k l m n hk hl hid
  obtain ⟨ik, hk⟩ := o.symm.exists_place hk
  obtain ⟨il, hl⟩ := o.symm.exists_place hl
  have same := Fin.ext (h _ _ m n hk hl hid)
  exact Fin.mk.inj (o.symm.place.injective same)

theorem distinctLengths (h : DistinctLengths cs) : DistinctLengths ds := by
  intro k l d e hk hl ends length
  obtain ⟨ik, hk⟩ := o.symm.acceptedAt hk
  obtain ⟨il, hl⟩ := o.symm.acceptedAt hl
  have same := Fin.ext (h _ _ d e hk hl ends length)
  exact Fin.mk.inj (o.symm.place.injective same)

theorem addedLast (ids : DistinctIds ds) (h : AddedLast cs n) : AddedLast ds n := by
  obtain ⟨k, hk, -⟩ := h
  obtain ⟨inside, stands⟩ := o.exists_place hk
  refine ⟨_, stands, fun l m later hl same => ?_⟩
  have place := ids _ _ m n hl stands same
  omega

theorem firstShortest (lengths : DistinctLengths ds) (h : FirstShortest cs e) :
    FirstShortest ds e := by
  obtain ⟨k, hk, least⟩ := h
  obtain ⟨inside, accepted⟩ := o.acceptedAt hk
  refine ⟨_, accepted, fun l d hl ends => ?_⟩
  obtain ⟨back, hd⟩ := o.symm.acceptedAt hl
  rcases least _ d hd ends with lt | ⟨eq, -⟩
  · exact Or.inl lt
  · exact Or.inr ⟨eq, Nat.le_of_eq (lengths _ _ e d accepted hl ends.symm eq)⟩

end Reordering

end Addition

namespace Network

open Addition

variable {cs ds : List Addition} {g : Network} {c : Addition} {n : Node} {e d : Edge} {i : NodeId}
  {k : Ends}

/-! ## Calls on a network -/

/-- The network after one more call, if it is not refused. -/
def tryAdd (g : Network) : Addition → Except EdgeRefusal Network
  | .node n => .ok (g.addNode n)
  | .edge e => g.addEdge? e

/-- The network after one more call; a refused one changes nothing. -/
def add (g : Network) (c : Addition) : Network :=
  match g.tryAdd c with
  | .ok h => h
  | .error _ => g

/-- The network that calls make, one after the other. -/
def made (cs : List Addition) : Network := cs.foldl add empty

theorem made_concat (cs : List Addition) (c : Addition) : made (cs ++ [c]) = (made cs).add c := by
  rw [made, made, List.foldl_append]
  rfl

/-! ## What calls make -/

theorem addEdge?_cases (g : Network) (e : Edge) :
    (e.source = e.target ∧ g.addEdge? e = .error (.selfLoop e.source)) ∨
    (e.source ≠ e.target ∧ ¬ (e.source ∈ g.nodeMap ∧ e.target ∈ g.nodeMap) ∧
      g.addEdge? e = .error (.unknownEnd e.source e.target)) ∨
    (e.source ≠ e.target ∧ (e.source ∈ g.nodeMap ∧ e.target ∈ g.nodeMap) ∧
      ∃ h, g.addEdge? e = .ok h ∧ h.nodeMap = g.nodeMap ∧
        h.edgeMap = if (g.edgeMap[e.ends]?).any (fun old => old.length ≤ e.length) then g.edgeMap
          else g.edgeMap.insert e.ends e) := by
  unfold addEdge?
  by_cases loop : e.source = e.target
  · exact Or.inl ⟨loop, dif_pos loop⟩
  · rw [dif_neg loop]
    by_cases known : e.source ∈ g.nodeMap ∧ e.target ∈ g.nodeMap
    · refine Or.inr (Or.inr ⟨loop, known, _, dif_pos known, ?_, ?_⟩) <;>
      · unfold putEdge
        split <;> rfl
    · exact Or.inr (Or.inl ⟨loop, known, dif_neg known⟩)

theorem nodeMap_add_edge (g : Network) (e : Edge) : (g.add (.edge e)).nodeMap = g.nodeMap := by
  rcases g.addEdge?_cases e with ⟨-, he⟩ | ⟨-, -, he⟩ | ⟨-, -, h, he, nodes, -⟩ <;>
    simp only [add, tryAdd, he]
  exact nodes

/-- **Under an id the node added last is filed.** -/
theorem getElem?_nodeMap_made :
    (made cs).nodeMap[i]? = some n ↔ AddedLast cs n ∧ n.id = i := by
  induction cs using List.reverseRecOn with
  | nil => simp [made, empty, AddedLast]
  | append_singleton cs c ih =>
    rw [made_concat]
    cases c with
    | edge e => rw [nodeMap_add_edge, ih, addedLast_edge]
    | node m =>
      show ((made cs).addNode m).nodeMap[i]? = some n ↔ _
      have file : ((made cs).addNode m).nodeMap = (made cs).nodeMap.insert m.id m := rfl
      rw [file, lookup_insert, addedLast_node]
      by_cases hi : m.id = i
      · subst hi
        rw [if_pos rfl, Option.some.injEq]
        constructor
        · rintro rfl
          exact ⟨Or.inl rfl, rfl⟩
        · rintro ⟨rfl | ⟨apart, -⟩, same⟩
          · rfl
          · exact absurd same.symm apart
      · rw [if_neg hi, ih]
        constructor
        · rintro ⟨last, rfl⟩
          exact ⟨Or.inr ⟨hi, last⟩, rfl⟩
        · rintro ⟨rfl | ⟨-, last⟩, rfl⟩
          · exact absurd rfl hi
          · exact ⟨last, rfl⟩

theorem mem_nodeMap_made : i ∈ (made cs).nodeMap ↔ Names cs i := by
  induction cs using List.reverseRecOn with
  | nil => simp [made, empty, Names]
  | append_singleton cs c ih =>
    rw [made_concat, names_concat]
    cases c with
    | edge e => simp [nodeMap_add_edge, ih]
    | node m =>
      show i ∈ (made cs).nodeMap.insert m.id m ↔ _
      rw [Std.ExtTreeMap.mem_insert, Std.compare_eq_iff_eq, ih, or_comm]
      simp

/-- **An edge is refused** exactly if it is a loop or else one of its ends was not added before. -/
theorem addEdge?_eq_error_iff {r : EdgeRefusal} :
    (made cs).addEdge? e = .error r ↔ Refused cs e r := by
  rcases (made cs).addEdge?_cases e with ⟨loop, he⟩ | ⟨loop, unknown, he⟩ | ⟨loop, known, h, he, -, -⟩
  · rw [he]
    constructor
    · rintro ⟨⟩
      exact .selfLoop loop
    · rintro (- | ⟨apart, -⟩)
      · rfl
      · exact absurd loop apart
  · rw [mem_nodeMap_made, mem_nodeMap_made] at unknown
    rw [he]
    constructor
    · rintro ⟨⟩
      exact .unknownEnd loop unknown
    · rintro (same | -)
      · exact absurd same loop
      · rfl
  · rw [mem_nodeMap_made, mem_nodeMap_made] at known
    rw [he]
    refine iff_of_false nofun ?_
    rintro (same | ⟨-, unknown⟩)
    · exact loop same
    · exact unknown known

theorem add_of_refused {r : EdgeRefusal} (h : Refused cs e r) : (made cs).add (.edge e) = made cs := by
  rw [add, tryAdd, addEdge?_eq_error_iff.2 h]

/-- An edge that joins added nodes is filed if it is shorter than the one on file. -/
theorem edgeMap_add_edge (h : Joins cs e) :
    ((made cs).add (.edge e)).edgeMap =
      if ((made cs).edgeMap[e.ends]?).any (fun old => old.length ≤ e.length) then (made cs).edgeMap
      else (made cs).edgeMap.insert e.ends e := by
  obtain ⟨apart, known⟩ := h
  rw [← mem_nodeMap_made, ← mem_nodeMap_made] at known
  rcases (made cs).addEdge?_cases e with ⟨loop, -⟩ | ⟨-, unknown, -⟩ | ⟨-, -, h, he, -, edges⟩
  · exact absurd loop apart
  · exact absurd known unknown
  · rw [add, tryAdd, he]
    exact edges

theorem add_of_not_joins (h : ¬ Joins cs e) : (made cs).add (.edge e) = made cs := by
  by_cases loop : e.source = e.target
  · exact add_of_refused (.selfLoop loop)
  · exact add_of_refused (.unknownEnd loop fun known => h ⟨loop, known⟩)

/-- What counts is filed, and every entry counts. -/
def Files (m : Std.ExtTreeMap Ends Edge) (cs : List Addition) : Prop :=
  ∀ (k : Ends) (e : Edge), m[k]? = some e ↔ FirstShortest cs e ∧ e.ends = k

/-- An accepted edge that is shorter than all before it between the same nodes is filed under their
ends. -/
theorem Files.insert {m : Std.ExtTreeMap Ends Edge} (h : Files m cs) (joins : Joins cs d)
    (shorter : ∀ l x, AcceptedAt cs l x → x.ends = d.ends → d.length < x.length) :
    Files (m.insert d.ends d) (cs ++ [.edge d]) := by
  intro k e
  rw [firstShortest_edge joins, lookup_insert]
  by_cases hk : d.ends = k
  · subst hk
    rw [if_pos rfl, Option.some.injEq]
    constructor
    · rintro rfl
      exact ⟨Or.inl ⟨rfl, shorter⟩, rfl⟩
    · rintro ⟨⟨rfl, -⟩ | ⟨⟨j, accepted, -⟩, le⟩, ends⟩
      · rfl
      · exact absurd (shorter j e accepted ends) (Nat.not_lt.2 (le ends.symm))
  · rw [if_neg hk, h]
    constructor
    · rintro ⟨he, rfl⟩
      exact ⟨Or.inr ⟨he, fun ends => absurd ends hk⟩, rfl⟩
    · rintro ⟨⟨rfl, -⟩ | ⟨he, -⟩, rfl⟩
      · exact absurd rfl hk
      · exact ⟨he, rfl⟩

/-- An accepted edge that is no shorter than the one on file leaves the files as they are. -/
theorem Files.keep {m : Std.ExtTreeMap Ends Edge} {f : Edge} (h : Files m cs) (joins : Joins cs d)
    (filed : m[d.ends]? = some f) (stays : f.length ≤ d.length) : Files m (cs ++ [.edge d]) := by
  obtain ⟨⟨j, accepted, -⟩, ends⟩ := (h _ f).1 filed
  intro k e
  rw [firstShortest_edge joins, h]
  refine and_congr_left fun _ => ⟨fun he => Or.inr ⟨he, fun same => ?_⟩, ?_⟩
  · rw [same, (h _ e).2 ⟨he, rfl⟩] at filed
    cases filed
    exact stays
  · rintro (⟨rfl, shorter⟩ | ⟨he, -⟩)
    · exact absurd (shorter j f accepted ends) (Nat.not_lt.2 stays)
    · exact he

theorem files_add_edge (joins : Joins cs d) (h : Files (made cs).edgeMap cs) :
    Files ((made cs).add (.edge d)).edgeMap (cs ++ [.edge d]) := by
  rw [edgeMap_add_edge joins]
  cases old : (made cs).edgeMap[d.ends]? with
  | none =>
    rw [Option.any_none, if_neg Bool.false_ne_true]
    refine h.insert joins fun l x hx ends => ?_
    -- something would be filed
    obtain ⟨y, hy, same⟩ := exists_firstShortest hx
    rw [(h _ y).2 ⟨hy, same.trans ends⟩] at old
    cases old
  | some f =>
    by_cases stays : f.length ≤ d.length
    · rw [Option.any_some, if_pos (decide_eq_true stays)]
      exact h.keep joins old stays
    · rw [Option.any_some, if_neg (by simpa using stays)]
      obtain ⟨⟨j, -, least⟩, ends⟩ := (h _ f).1 old
      refine h.insert joins fun l x hx same => ?_
      rcases least l x hx (same.trans ends.symm) with lt | ⟨eq, -⟩ <;> omega

theorem files_made (cs : List Addition) : Files (made cs).edgeMap cs := by
  induction cs using List.reverseRecOn with
  | nil =>
    intro k e
    simp [made, empty, FirstShortest, AcceptedAt]
  | append_singleton cs c ih =>
    rw [made_concat]
    cases c with
    | node m =>
      intro k e
      rw [firstShortest_node]
      exact ih k e
    | edge d =>
      by_cases joins : Joins cs d
      · exact files_add_edge joins ih
      · intro k e
        rw [add_of_not_joins joins, firstShortest_of_not_joins joins]
        exact ih k e

/-- **Under two ends the first of the shortest accepted edges is filed.** -/
theorem getElem?_edgeMap_made :
    (made cs).edgeMap[k]? = some e ↔ FirstShortest cs e ∧ e.ends = k := files_made cs k e

theorem ext_lookup {h : Network}
    (nodes : ∀ (i : NodeId) (n : Node), g.nodeMap[i]? = some n ↔ h.nodeMap[i]? = some n)
    (edges : ∀ (k : Ends) (e : Edge), g.edgeMap[k]? = some e ↔ h.edgeMap[k]? = some e) : g = h := by
  apply Network.ext
  · exact Std.ExtTreeMap.ext_getElem? fun i => Option.ext fun n => nodes i n
  · exact Std.ExtTreeMap.ext_getElem? fun k => Option.ext fun e => edges k e

/-- **The order of the calls does not matter** while nodes stand before their edges, if no id is
added twice and no two accepted edges between the same nodes have the same length. -/
theorem made_eq_of_reordered (o : Reordering cs ds) (ids : DistinctIds cs)
    (lengths : DistinctLengths cs) : made ds = made cs := by
  refine ext_lookup (fun i n => ?_) fun k e => ?_
  · rw [getElem?_nodeMap_made, getElem?_nodeMap_made]
    exact and_congr_left fun _ => ⟨o.symm.addedLast ids, o.addedLast (o.distinctIds ids)⟩
  · rw [getElem?_edgeMap_made, getElem?_edgeMap_made]
    exact and_congr_left fun _ =>
      ⟨o.symm.firstShortest lengths, o.firstShortest (o.distinctLengths lengths)⟩

/-! ## The chart of what calls make -/

/-- What the chart of a network says about the calls that made it. -/
structure Represents (cs : List Addition) (ch : Chart) : Prop where
  nodes (n : Node) : n ∈ ch.nodes.toList ↔ AddedLast cs n
  nodes_sorted : ch.nodes.toList.Pairwise fun m n => m.id < n.id
  edges (e : Edge) : e ∈ ch.edges.toList ↔ FirstShortest cs e
  edges_sorted : ch.edges.toList.Pairwise fun d e => compare d.ends e.ends = .lt
  /-- Wherever an edge was accepted, there is one. -/
  joined (k : Nat) (d : Edge) : AcceptedAt cs k d → ∃ e ∈ ch.edges.toList, e.ends = d.ends
  node (i : NodeId) :
    ∃ found, ch.node? i = some found ∧ ∀ n, found = some n ↔ AddedLast cs n ∧ n.id = i
  edge (a b : NodeId) : ∃ found, ch.edge? a b = some found ∧ ch.edge? b a = some found ∧
    ∀ e, found = some e ↔ FirstShortest cs e ∧ e.ends = Ends.of a b
  edgesOf (i : NodeId) : ∃ es, ch.edgesOf? i = some es ∧
    (∀ e, e ∈ es ↔ FirstShortest cs e ∧ (e.source = i ∨ e.target = i)) ∧
    (es.Pairwise fun d e => compare d.ends e.ends = .lt) ∧
    ch.neighbors? i =
      some ((es.filter fun e => e.canLeave i).filterMap fun e => e.ends.other? i)

theorem mem_nodes_made : n ∈ (made cs).nodes ↔ AddedLast cs n := by
  rw [mem_nodes, getElem?_nodeMap_made, and_iff_left rfl]

theorem mem_edges_made : e ∈ (made cs).edges ↔ FirstShortest cs e := by
  rw [mem_edges, getElem?_edgeMap_made, and_iff_left rfl]

theorem represents_of_shows {ch : Chart} (h : ch.Shows (made cs)) : Represents cs ch where
  nodes n := by rw [h.nodes, mem_nodes_made]
  nodes_sorted := by
    rw [h.nodes]
    exact sorted_nodes _
  edges e := by rw [h.edges, mem_edges_made]
  edges_sorted := by
    rw [h.edges]
    exact sorted_edges _
  joined k d accepted := by
    obtain ⟨e, first, ends⟩ := exists_firstShortest accepted
    refine ⟨e, ?_, ends⟩
    rw [h.edges, mem_edges_made]
    exact first
  node i := ⟨_, h.node i, fun n => getElem?_nodeMap_made⟩
  edge a b := by
    refine ⟨_, h.edgeWith _, ?_, fun e => getElem?_edgeMap_made⟩
    rw [Chart.edge?, Ends.of_comm, h.edgeWith]
  edgesOf i := by
    refine ⟨_, h.edgesOf i, fun e => ?mem, (sorted_edges _).filter _, ?neighbors⟩
    case mem => simp [mem_edgesOf, mem_edges_made, Edge.touches]
    case neighbors =>
      rw [Chart.neighbors?, h.edgesOf, Option.map_some, List.filterMap_filter]
      simp only [Edge.target?_eq_other?]

/-- **A network represents the calls that made it.**  No slot is missing when its chart is drawn or
read, and the chart tells the nodes added last and the first of the shortest accepted edges; a refused
edge leaves no trace; and the order of the calls does not matter while every node stays on the same
side of its edges, if no id is added twice and no two accepted edges between the same nodes have the
same length. -/
theorem made_represented (cs : List Addition) :
    (∃ ch, (made cs).chart? = some ch ∧ ch.Shows (made cs) ∧ Represents cs ch) ∧
    (∀ e r, (made cs).addEdge? e = .error r ↔ Refused cs e r) ∧
    (∀ e r ds, Refused cs e r → made (cs ++ .edge e :: ds) = made (cs ++ ds)) ∧
    ∀ ds, Reordering cs ds → DistinctIds cs → DistinctLengths cs → made ds = made cs := by
  refine ⟨?chart, fun e r => addEdge?_eq_error_iff, fun e r ds refused => ?refused,
    fun ds o ids lengths => made_eq_of_reordered o ids lengths⟩
  case chart =>
    obtain ⟨ch, drawn, answers⟩ := (made cs).chart_shows
    exact ⟨ch, drawn, answers, represents_of_shows answers⟩
  case refused =>
    have unchanged : (made cs).add (.edge e) = made cs := add_of_refused refused
    unfold made at unchanged ⊢
    rw [List.foldl_append, List.foldl_append, List.foldl_cons, unchanged]

/-- Two stations, joined twice. -/
def joinedTwice : List Addition :=
  [.node ⟨⟨"A"⟩, .station, ⟨0, 0, 0⟩, none, none⟩, .node ⟨⟨"B"⟩, .station, ⟨9, 0, 0⟩, none, none⟩,
    .edge ⟨⟨"A"⟩, ⟨"B"⟩, 9, ⟨0⟩, true, none⟩, .edge ⟨⟨"B"⟩, ⟨"A"⟩, 5, ⟨0⟩, false, none⟩]

/-- Neither the order of the stations and of the edges matters, nor an edge to a third station. -/
theorem made_represented_joinedTwice :
    made (joinedTwice ++ .edge ⟨⟨"A"⟩, ⟨"C"⟩, 1, ⟨0⟩, true, none⟩ :: []) =
      made (joinedTwice ++ []) ∧
    made [joinedTwice[1], joinedTwice[0], joinedTwice[3], joinedTwice[2]] = made joinedTwice := by
  have all := made_represented joinedTwice
  refine ⟨all.2.2.1 _ (.unknownEnd ⟨"A"⟩ ⟨"C"⟩) [] (.unknownEnd (by decide) ?_), all.2.2.2 _ ?_ ?_ ?_⟩
  · simp [Names, joinedTwice]
  · exact ⟨(Equiv.swap (0 : Fin 4) 1).trans (Equiv.swap 2 3), by decide, by decide⟩
  · intro k l m n hk hl same
    have ik : k < 4 := (List.getElem?_eq_some_iff.1 hk).1
    have il : l < 4 := (List.getElem?_eq_some_iff.1 hl).1
    interval_cases k <;> interval_cases l <;> simp [joinedTwice] at hk hl ⊢ <;>
      · subst hk hl
        exact absurd same (by decide)
  · intro k l d e hk hl _ same
    have ik : k < 4 := lt_length_of_acceptedAt hk
    have il : l < 4 := lt_length_of_acceptedAt hl
    have hk := hk.1
    have hl := hl.1
    interval_cases k <;> interval_cases l <;> simp [joinedTwice] at hk hl ⊢ <;>
      · subst hk hl
        exact absurd same (by decide)

end Network

end Signalbox
