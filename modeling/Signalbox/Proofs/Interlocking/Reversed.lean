import Signalbox.Proofs.Interlocking.Along
import Signalbox.Proofs.Json.Forms

/-!
# Names of edges the wrong way round

The name of an edge has its ends in ascending order.  That is how names are made, whether from two
nodes, from an edge or along a route.  The written form of a name does not see to it: a name is read
with its ends as they are written, in either order.

A name the wrong way round names nothing: no network finds an edge under it, although the edge
between the two nodes may be there.  As a resource it is told by a text of its own, so that whoever
holds it does not hold the edge.  The one exception are two ends that repeat the same text with
arrows in between; there the text reads alike both ways.

* `Ends.append_arrow_comm_iff` : when two names around an arrow may change places;
* `Network.edgeWith?_eq`       : what is found under a name in either order;
* `Network.ascending_names_iff` : which names are ascending, and what the others miss;
* `Network.reversed_name_misses_edge` : a name that is read and misses its edge.
-/

set_option autoImplicit false

namespace Signalbox

namespace Ends

/-! ## The order of the ends -/

/-- The ends are in ascending order. -/
def Ascending (k : Ends) : Prop := k.a ≤ k.b

instance (k : Ends) : Decidable k.Ascending := inferInstanceAs (Decidable (k.a ≤ k.b))

variable {k : Ends}

theorem Ascending.of_eq (h : k.Ascending) : of k.a k.b = k := if_pos h

theorem of_eq_of_not_ascending (h : ¬ k.Ascending) : of k.a k.b = ⟨k.b, k.a⟩ := if_neg h

/-! ## Names that may change places -/

/-- A text, and so many times an arrow and the text again. -/
def repeated (z : List Char) : Nat → List Char
  | 0 => z
  | n + 1 => z ++ (arrow ++ repeated z n)

theorem repeated_append (z : List Char) (m n : Nat) :
    repeated z m ++ (arrow ++ repeated z n) = repeated z (m + n + 1) := by
  induction m with
  | zero => rw [Nat.zero_add]; rfl
  | succ m ih =>
    rw [show m + 1 + n + 1 = m + n + 1 + 1 by omega, repeated, repeated, ← ih]
    simp only [List.append_assoc]

/-- The longer one of two names that may change places is the shorter one, an arrow, and what may
change places with the shorter one in turn. -/
theorem exists_repeated {x y : List Char} (h : x ++ (arrow ++ y) = y ++ (arrow ++ x)) :
    ∃ z m n, x = repeated z m ∧ y = repeated z n := by
  rcases List.append_eq_append_iff.1 h with ⟨t, longer, rest⟩ | ⟨t, longer, rest⟩
  · rcases eq_nil_or_arrow rest with ⟨-, same⟩ | ⟨u, rfl, again⟩
    · exact ⟨x, 0, 0, rfl, same⟩
    · have shorter : x ++ (arrow ++ u) = u ++ (arrow ++ x) := longer.symm.trans again
      obtain ⟨z, m, n, hx, hu⟩ := exists_repeated shorter
      exact ⟨z, m, m + n + 1, hx, by rw [longer, ← repeated_append, ← hx, ← hu]⟩
  · rcases eq_nil_or_arrow rest with ⟨-, same⟩ | ⟨u, rfl, again⟩
    · exact ⟨y, 0, 0, same, rfl⟩
    · have shorter : y ++ (arrow ++ u) = u ++ (arrow ++ y) := longer.symm.trans again
      obtain ⟨z, m, n, hy, hu⟩ := exists_repeated shorter
      exact ⟨z, m + n + 1, m, by rw [longer, ← repeated_append, ← hy, ← hu], hy⟩
termination_by x.length + y.length
decreasing_by all_goals simp [longer, arrow]; omega

/-- **Two names around an arrow may change places** if both repeat one text. -/
theorem append_arrow_comm_iff {x y : List Char} :
    x ++ (arrow ++ y) = y ++ (arrow ++ x) ↔ ∃ z m n, x = repeated z m ∧ y = repeated z n := by
  constructor
  · exact exists_repeated
  · rintro ⟨z, m, n, rfl, rfl⟩
    rw [repeated_append, repeated_append, Nat.add_comm m n]

/-- Both ends repeat one text, with arrows in between. -/
def Repeating (k : Ends) : Prop :=
  ∃ z m n, k.a.text.toList = repeated z m ∧ k.b.text.toList = repeated z n

/-- **When a name has the text of the name in ascending order.** -/
theorem text_of_eq_iff : k.text = (of k.a k.b).text ↔ k.Ascending ∨ k.Repeating := by
  by_cases h : k.Ascending
  · simp [h.of_eq, h]
  · rw [of_eq_of_not_ascending h, or_iff_right h, ← String.toList_inj, toList_text, toList_text]
    exact append_arrow_comm_iff

/-- Ends in which no arrow occurs repeat a text only if they are the same. -/
theorem Repeating.eq_of_plain (h : k.Repeating) (plainA : ¬ arrow <:+: k.a.text.toList)
    (plainB : ¬ arrow <:+: k.b.text.toList) : k.a = k.b := by
  obtain ⟨z, m, n, ha, hb⟩ := h
  have once {m : Nat} {x : List Char} (plain : ¬ arrow <:+: x) (hx : x = repeated z m) : x = z := by
    cases m with
    | zero => exact hx
    | succ m => exact absurd ⟨z, repeated z m, by rw [hx, repeated, List.append_assoc]⟩ plain
  exact Ident.ext_text (String.toList_injective ((once plainA ha).trans (once plainB hb).symm))

end Ends

namespace Network

variable {g : Network} {o : RouteOptions} {origin goal : NodeId} {p : Route} {k : Ends} {e : Edge}

/-! ## Names in use -/

theorem ascending_ends (e : Edge) : e.ends.Ascending := Ends.of_ordered e.source e.target

/-- The names along a route are those of edges. -/
theorem ascending_of_shortestRoute (answer : g.shortestRoute o origin goal = some p)
    (hk : k ∈ p.edges) : k.Ascending := by
  obtain ⟨ho, hg⟩ := known_of_shortestRoute answer
  obtain ⟨es, -, names, -⟩ := (answers_of_shortestRoute ho hg answer).walk
  rw [names] at hk
  obtain ⟨e, -, rfl⟩ := List.mem_map.1 hk
  exact ascending_ends e

/-- **Under a name the wrong way round nothing is found**, under any other one the edge between its
ends. -/
theorem edgeWith?_eq (g : Network) (k : Ends) :
    g.edgeWith? k = if k.Ascending then g.edge? k.a k.b else none := by
  split
  · rename_i ascending
    rw [edge?, ascending.of_eq]
  · rename_i reversed
    cases found : g.edgeWith? k with
    | none => rfl
    | some e =>
      obtain ⟨-, rfl⟩ := edgeWith?_eq_some_iff.1 found
      exact absurd (ascending_ends e) reversed

theorem ends_of_edge? (h : g.edge? k.a k.b = some e) : e.ends = Ends.of k.a k.b :=
  (edgeWith?_eq_some_iff.1 h).2

/-- **Which names are ascending, and what the others miss.**  Names that are made are ascending:
those of two nodes, of edges, and along routes.  A name in either order is read from its own text.
An edge is found under a name exactly if the name is ascending and the edge is between its ends; and
a name is the resource of the edge between its ends exactly if it is ascending, or both ends repeat
one text, which ends without arrows do only if they are the same. -/
theorem ascending_names_iff (g : Network) :
    ((∀ x y, (Ends.of x y).Ascending) ∧ (∀ e : Edge, e.ends.Ascending) ∧
      ∀ (o : RouteOptions) (origin goal : NodeId) (p : Route),
        g.shortestRoute o origin goal = some p → ∀ k ∈ p.edges, k.Ascending) ∧
    (∀ k : Ends, Json.read? (Json.write k) = some k) ∧
    (∀ k : Ends, g.edgeWith? k = if k.Ascending then g.edge? k.a k.b else none) ∧
    (∀ (k : Ends) (e : Edge), g.edge? k.a k.b = some e →
      (Resource.ofEnds k = .ofEnds e.ends ↔ k.Ascending ∨ k.Repeating)) ∧
    ∀ k : Ends, k.Repeating → ¬ Ends.arrow <:+: k.a.text.toList →
      ¬ Ends.arrow <:+: k.b.text.toList → k.a = k.b := by
  refine ⟨⟨Ends.of_ordered, ascending_ends, fun o origin goal p answer k => ?routes⟩, fun k => ?read,
    edgeWith?_eq g, fun k e found => ?resources, fun k => Ends.Repeating.eq_of_plain⟩
  case routes => exact ascending_of_shortestRoute answer
  case read => simpa using Json.readsBack Ends k "" "" (by simp) (by simp)
  case resources =>
    rw [ends_of_edge? found, ← Ends.text_of_eq_iff]
    simp [Resource.ofEnds]

/-- One end repeats the other with an arrow in between.  Although the name is read the wrong way round
and finds no edge, it is the resource of the edge. -/
theorem ascending_names_iff_repeating :
    let station (name : String) : Addition := .node ⟨⟨name⟩, .station, ⟨0, 64, 0⟩, none, none⟩
    let e : Edge :=
      { source := ⟨"x"⟩, target := ⟨"x<->x"⟩, length := 5, speedLimit := ⟨1090519040⟩ }
    let g := made [station "x", station "x<->x", .edge e]
    let k : Ends := ⟨⟨"x<->x"⟩, ⟨"x"⟩⟩
    Json.read? (Json.write k) = some k ∧ ¬ k.Ascending ∧ g.edgeWith? k = none ∧
      g.edge? k.a k.b = some e ∧ Resource.ofEnds k = .ofEnds e.ends := by
  intro station e g k
  have reversed : ¬ k.Ascending := by decide
  have found : g.edge? k.a k.b = some e := by decide +kernel
  have repeating : k.Repeating := ⟨['x'], 1, 0, by decide, by decide⟩
  obtain ⟨-, reads, finds, names, -⟩ := ascending_names_iff g
  exact ⟨reads k, reversed, by rw [finds k, if_neg reversed], found,
    (names k e found).2 (Or.inr repeating)⟩

/-- Two stations and the edge between them: its name is read the wrong way round, no edge is found
under it, and it is another resource than the edge. -/
theorem reversed_name_misses_edge :
    let station (name : String) : Addition := .node ⟨⟨name⟩, .station, ⟨0, 64, 0⟩, none, none⟩
    let e : Edge := { source := ⟨"A"⟩, target := ⟨"B"⟩, length := 5, speedLimit := ⟨1090519040⟩ }
    let g := made [station "A", station "B", .edge e]
    let k : Ends := ⟨⟨"B"⟩, ⟨"A"⟩⟩
    Json.read? "\x7b\"a\":\"B\",\"b\":\"A\"\x7d" = some k ∧ ¬ k.Ascending ∧
      g.edge? k.a k.b = some e ∧ g.edgeWith? k = none ∧ Resource.ofEnds k ≠ .ofEnds e.ends := by
  decide +kernel

end Network

end Signalbox
