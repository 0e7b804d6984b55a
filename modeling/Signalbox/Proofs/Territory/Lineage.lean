import Signalbox.Proofs.Territory.Frontier

/-!
# The tree of parents

The trail of an owned cell leads back to an anchor of its owner, and the trail of every cell on it is
what is left of it there.  So the trails make up a tree, in which the parent of a cell is the cell
over which it was reached.  A walk back along a trail passes the cells above the one it comes from,
each through the arm that it left last; the anchor where it ends is not passed.

* `Territory.Rooted`     : the trail of an owned cell goes on with that of its parent;
* `Territory.Rooted.nodup` : no walk back comes to a cell twice;
* `Territory.Rooted.passes_iff` : what a walk back passes, said of the tree.
-/

set_option autoImplicit false

namespace Signalbox

namespace Territory

variable {s : Territory} {a c d j k p v : Cell} {r q : Reach} {o : Origin} {trail : List Cell}

/-! ## Parents -/

/-- The cell over which the owner of a cell reached it; an anchor that was reached as one has none. -/
def parent? (s : Territory) (c : Cell) : Option Cell := s.owners[c]?.bind fun r => r.trail.head?

/-- A cell lies at or below another one in the tree of parents. -/
inductive Below (s : Territory) (a : Cell) : Cell → Prop
  | here : s.Below a a
  | under {c d : Cell} : s.Below a c → s.parent? d = some c → s.Below a d

theorem Below.trans (h : s.Below a c) (h' : s.Below c d) : s.Below a d := by
  induction h' with
  | here => exact h
  | under _ parent ih => exact .under ih parent

theorem parent?_eq_some_iff :
    s.parent? c = some p ↔ ∃ o trail, s.owners[c]? = some ⟨o, p :: trail⟩ := by
  rw [parent?, Option.bind_eq_some_iff]
  constructor
  · rintro ⟨⟨o, trail⟩, owned, head⟩
    obtain ⟨rest, rfl⟩ := List.head?_eq_some_iff.1 head
    exact ⟨o, rest, owned⟩
  · rintro ⟨o, trail, owned⟩
    exact ⟨_, owned, rfl⟩

/-! ## Trails -/

/-- The trail of every owned cell goes on with the trail of its parent. -/
def Rooted (s : Territory) : Prop :=
  ∀ (c : Cell) (o : Origin) (p : Cell) (trail : List Cell),
    s.owners[c]? = some ⟨o, p :: trail⟩ → s.owners[p]? = some ⟨o, trail⟩

theorem Frontier.rooted (h : Frontier s) : Rooted s := fun c o p trail owned =>
  have leads : s.Leads c ⟨o, p :: trail⟩ := h.leads c _ (Or.inl owned)
  leads.1

theorem Rooted.congr {t : Territory} (h : Rooted s) (same : t.owners = s.owners) : Rooted t := by
  unfold Rooted
  rw [same]
  exact h

/-- The first cell of a trail, if there is one, is owned with the rest of the trail. -/
def Continues (s : Territory) (o : Origin) (trail : List Cell) : Prop :=
  ∀ c rest, trail = c :: rest → s.owners[c]? = some ⟨o, rest⟩

theorem Rooted.continues (h : Rooted s) (owned : s.owners[c]? = some ⟨o, trail⟩) :
    s.Continues o trail := by
  rintro p rest rfl
  exact h c o p rest owned

/-- The cells on a trail have the same owner and shorter trails. -/
theorem Rooted.owned_of_mem (h : Rooted s) (owned : s.owners[c]? = some ⟨o, trail⟩)
    (hd : d ∈ trail) : ∃ rest, s.owners[d]? = some ⟨o, rest⟩ ∧ rest.length < trail.length := by
  induction trail generalizing c with
  | nil => cases hd
  | cons p trail ih =>
    have above := h c o p trail owned
    rcases List.mem_cons.1 hd with rfl | hd
    · exact ⟨trail, above, Nat.lt_succ_self _⟩
    · obtain ⟨rest, owned', shorter⟩ := ih above hd
      exact ⟨rest, owned', Nat.lt_succ_of_lt shorter⟩

/-- **No walk back comes to a cell twice.** -/
theorem Rooted.nodup (h : Rooted s) (owned : s.owners[c]? = some ⟨o, trail⟩) :
    (c :: trail).Nodup := by
  induction trail generalizing c with
  | nil => simp
  | cons p trail ih =>
    refine List.nodup_cons.2 ⟨fun again => ?_, ih (h c o p trail owned)⟩
    obtain ⟨rest, owned', shorter⟩ := h.owned_of_mem owned again
    rw [owned] at owned'
    cases owned'
    exact Nat.lt_irrefl _ shorter

/-! ## Walks back -/

/-- A walk back along a trail that comes through `arm` passes the cell `j`, where it comes through
the arm `a`.  It does not pass the last cell, where it ends. -/
def Passes (arm : Cell) : List Cell → Cell → Cell → Prop
  | [], _, _ => False
  | c :: trail, j, a => (j = c ∧ a = arm ∧ trail ≠ []) ∨ Passes c trail j a

/-- The owner of a cell went some way to it. -/
def Remote (s : Territory) (c : Cell) : Prop := ∃ r, s.owners[c]? = some r ∧ 0 < r.distance

/-- **What a walk back passes:** the parents of the cells above its start, except for the cell where
it ends. -/
theorem Rooted.passes_iff (h : Rooted s) (owned : s.owners[v]? = some ⟨o, trail⟩) :
    Passes v trail j a ↔ s.parent? a = some j ∧ s.Below a v ∧ s.Remote j := by
  constructor
  · intro passes
    induction trail generalizing v with
    | nil => cases passes
    | cons p trail ih =>
      have parent : s.parent? v = some p := parent?_eq_some_iff.2 ⟨o, trail, owned⟩
      have above := h v o p trail owned
      rcases passes with ⟨rfl, rfl, goesOn⟩ | passes
      · exact ⟨parent, .here, _, above, List.length_pos_iff.2 goesOn⟩
      · obtain ⟨link, below, remote⟩ := ih above passes
        exact ⟨link, .under below parent, remote⟩
  · rintro ⟨link, below, q, ownedJ, remote⟩
    induction below generalizing trail with
    | here =>
      obtain ⟨o', rest, owned'⟩ := parent?_eq_some_iff.1 link
      rw [owned] at owned'
      cases owned'
      rw [h _ _ _ _ owned] at ownedJ
      cases ownedJ
      exact Or.inl ⟨rfl, rfl, List.length_pos_iff.1 remote⟩
    | under below parent ih =>
      obtain ⟨o', rest, owned'⟩ := parent?_eq_some_iff.1 parent
      rw [owned] at owned'
      cases owned'
      exact Or.inr (ih (h _ _ _ _ owned))

theorem Rooted.passes_trans (h : Rooted s) (owned : s.owners[v]? = some ⟨o, trail⟩)
    (passes : Passes v trail j a) (ownedJ : s.owners[j]? = some r)
    (passes' : Passes j r.trail k d) : Passes v trail k d := by
  obtain ⟨link, below, -⟩ := (h.passes_iff owned).1 passes
  obtain ⟨link', below', remote⟩ := (h.passes_iff ownedJ).1 passes'
  have down : s.Below j v := (Below.under .here link).trans below
  exact (h.passes_iff owned).2 ⟨link', below'.trans down, remote⟩

end Territory

end Signalbox
