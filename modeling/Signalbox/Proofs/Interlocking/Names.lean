import Signalbox.Proofs.Interlocking.Needs
import Signalbox.Proofs.Network.History
import Signalbox.Proofs.Text.Reading

/-!
# Names of resources

A junction is told by the text of its cell, and that text is read in one way only.  An edge is told
by the names of its ends with an arrow between them.  Where a name has an arrow in it as well, the
text may be broken at either arrow, and two edges with no end in common may be told by one text.

* `Cell.text_injective`      : the text of a cell is read in one way;
* `Ends.text_eq_iff`         : when two pairs of ends have the same text;
* `Network.shared_needs_iff` : what two edges both need;
* `Network.arrow_in_name_confuses_edges` : two edges told by one text.
-/

set_option autoImplicit false

namespace Signalbox

/-! ## Cells -/

namespace Cell

variable {c d : Cell}

theorem toList_text (c : Cell) : c.text.toList =
    Decimal.signed c.x.toInt ++ ',' :: (Decimal.signed c.y.toInt ++ ',' ::
      Decimal.signed c.z.toInt) := by
  simp [text, Decimal.ofInt]

/-- **The text of a cell is read in one way only**: numerals have no commas. -/
theorem text_injective (h : c.text = d.text) : c = d := by
  have chars := congrArg String.toList h
  rw [toList_text, toList_text] at chars
  obtain ⟨x, chars⟩ := eq_of_append_cons (Decimal.comma_not_mem_signed _)
    (Decimal.comma_not_mem_signed _) chars
  obtain ⟨y, z⟩ := eq_of_append_cons (Decimal.comma_not_mem_signed _)
    (Decimal.comma_not_mem_signed _) chars
  cases c; cases d
  simp only [Cell.mk.injEq, ← Int32.toInt_inj]
  exact ⟨Decimal.signed_injective x, Decimal.signed_injective y, Decimal.signed_injective z⟩

end Cell

/-! ## Ends -/

namespace Ends

variable {k l : Ends}

/-- The characters between the names of two ends. -/
def arrow : List Char := ['<', '-', '>']

/-- The text of the ends `k`, broken at a later arrow, is that of the ends `l`. -/
def ReadsAs (k l : Ends) : Prop :=
  ∃ m : String, l.a.text = k.a.text ++ "<->" ++ m ∧ k.b.text = m ++ "<->" ++ l.b.text

theorem toList_text (k : Ends) : k.text.toList = k.a.text.toList ++ (arrow ++ k.b.text.toList) := by
  simp [text, arrow]

/-- What stands before a later arrow is nothing, or begins with an arrow: two arrows do not
overlap. -/
theorem eq_nil_or_arrow {t y z : List Char} (h : arrow ++ y = t ++ (arrow ++ z)) :
    (t = [] ∧ y = z) ∨ ∃ m, t = arrow ++ m ∧ y = m ++ (arrow ++ z) := by
  match t with
  | [] => exact Or.inl ⟨rfl, by simpa [arrow] using h⟩
  | [a] => simp [arrow] at h
  | [a, b] => simp [arrow] at h
  | a :: b :: c :: m =>
    simp only [arrow, List.cons_append, List.nil_append, List.cons.injEq] at h
    obtain ⟨rfl, rfl, rfl, h⟩ := h
    exact Or.inr ⟨m, rfl, h⟩

/-- Ends of the same text are the same, or one of them is broken at a later arrow. -/
theorem eq_or_readsAs {t : List Char} (first : l.a.text.toList = k.a.text.toList ++ t)
    (rest : arrow ++ k.b.text.toList = t ++ (arrow ++ l.b.text.toList)) : k = l ∨ k.ReadsAs l := by
  rcases eq_nil_or_arrow rest with ⟨rfl, second⟩ | ⟨m, rfl, second⟩
  · rw [List.append_nil] at first
    left
    cases k; cases l
    simp only [Ends.mk.injEq]
    exact ⟨Ident.ext_text (String.toList_injective first.symm),
      Ident.ext_text (String.toList_injective second)⟩
  · refine Or.inr ⟨String.ofList m, String.toList_injective ?_, String.toList_injective ?_⟩
    · simp [first, arrow]
    · simp [second, arrow]

theorem ReadsAs.text_eq (h : k.ReadsAs l) : k.text = l.text := by
  obtain ⟨m, first, second⟩ := h
  rw [text, text, first, second]
  simp only [String.append_assoc]

/-- **When two pairs of ends have the same text**: if they are the same, or if one is the other
broken at a later arrow. -/
theorem text_eq_iff : k.text = l.text ↔ k = l ∨ k.ReadsAs l ∨ l.ReadsAs k := by
  constructor
  · intro h
    have chars := congrArg String.toList h
    rw [toList_text, toList_text, List.append_eq_append_iff] at chars
    rcases chars with ⟨t, first, rest⟩ | ⟨t, first, rest⟩
    · exact (eq_or_readsAs first rest).imp_right Or.inl
    · rcases eq_or_readsAs first rest with same | reads
      · exact Or.inl same.symm
      · exact Or.inr (Or.inr reads)
  · rintro (rfl | h | h)
    · rfl
    · exact h.text_eq
    · exact h.text_eq.symm

end Ends

/-! ## Resources -/

namespace Resource

variable {k l : Ends} {c d : Cell}

theorem ofEnds_eq_iff : ofEnds k = ofEnds l ↔ k = l ∨ k.ReadsAs l ∨ l.ReadsAs k := by
  rw [← Ends.text_eq_iff]
  simp [ofEnds]

theorem ofJunction_eq_iff : ofJunction c = ofJunction d ↔ c = d := by
  constructor
  · intro h
    exact Cell.text_injective (Resource.mk.inj h).2
  · rintro rfl
    rfl

theorem ofEnds_ne_ofJunction : ofEnds k ≠ ofJunction c := by
  simp [ofEnds, ofJunction]

end Resource

namespace Network

variable {g : Network} {e f : Edge} {r : Resource}

theorem needed_by_both_iff : r ∈ g.resourcesOfEdge e ∧ r ∈ g.resourcesOfEdge f ↔
    (r = .ofEnds e.ends ∧ Resource.ofEnds e.ends = .ofEnds f.ends) ∨
      ∃ c, r = .ofJunction c ∧ g.SwitchesAt e c ∧ g.SwitchesAt f c := by
  rw [mem_resourcesOfEdge, mem_resourcesOfEdge]
  constructor
  · rintro ⟨rfl | ⟨c, rfl, atE⟩, other | ⟨d, other, atF⟩⟩
    · exact Or.inl ⟨rfl, other⟩
    · exact absurd other Resource.ofEnds_ne_ofJunction
    · exact absurd other.symm Resource.ofEnds_ne_ofJunction
    · obtain rfl := Resource.ofJunction_eq_iff.1 other
      exact Or.inr ⟨c, rfl, atE, atF⟩
  · rintro (⟨rfl, same⟩ | ⟨c, rfl, atE, atF⟩)
    · exact ⟨Or.inl rfl, Or.inl same⟩
    · exact ⟨Or.inr ⟨c, rfl, atE⟩, Or.inr ⟨c, rfl, atF⟩⟩

/-- **What two edges both need.**  Edges are told apart by their ends, unless one pair of ends is the
other broken at a later arrow, and junctions by their cells.  So two edges both need the resource of
the first one, if they are not told apart, and the junctions under switchers of both, and nothing
else. -/
theorem shared_needs_iff (g : Network) :
    (∀ k l : Ends, Resource.ofEnds k = .ofEnds l ↔ k = l ∨ k.ReadsAs l ∨ l.ReadsAs k) ∧
    (∀ c d : Cell, Resource.ofJunction c = .ofJunction d ↔ c = d) ∧
    ∀ (e f : Edge) (r : Resource), r ∈ g.resourcesOfEdge e ∧ r ∈ g.resourcesOfEdge f ↔
      (r = .ofEnds e.ends ∧
        (e.ends = f.ends ∨ e.ends.ReadsAs f.ends ∨ f.ends.ReadsAs e.ends)) ∨
      ∃ c, r = .ofJunction c ∧ g.SwitchesAt e c ∧ g.SwitchesAt f c := by
  refine ⟨fun k l => Resource.ofEnds_eq_iff, fun c d => Resource.ofJunction_eq_iff, fun e f r => ?_⟩
  rw [needed_by_both_iff, Resource.ofEnds_eq_iff]

/-- Four stations without a switcher, and two edges between them that have no end in common: the text
`a<->b<->c` is broken at its second arrow into the ends of one and at its first into those of the
other, so both are one resource. -/
theorem arrow_in_name_confuses_edges :
    let station (name : String) : Addition := .node ⟨⟨name⟩, .station, ⟨0, 64, 0⟩, none, none⟩
    let edge (a b : String) : Edge :=
      { source := ⟨a⟩, target := ⟨b⟩, length := 5, speedLimit := ⟨1090519040⟩ }
    let e := edge "a" "b<->c"
    let f := edge "a<->b" "c"
    let g := made [station "a", station "b<->c", station "a<->b", station "c", .edge e, .edge f]
    (e ∈ g.edges ∧ f ∈ g.edges ∧ ∀ n ∈ g.nodes, n.isSwitcher = false) ∧
    e.ends ≠ f.ends ∧ Resource.ofEnds e.ends = .ofEnds f.ends ∧
    Resource.ofEnds e.ends ∈ g.resourcesOfEdge e ∧ Resource.ofEnds e.ends ∈ g.resourcesOfEdge f := by
  decide +kernel

end Network

end Signalbox
