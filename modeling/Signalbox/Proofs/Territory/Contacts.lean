import Signalbox.Proofs.Territory.Frontier

/-!
# Contacts

Between two units of work the contact of two origins has the least length of all ways to make it:
an anchor that they share, and any two neighbouring cells that they own.  A pair of neighbours is
seen from the cell that is settled last, and by then the other one has its owner, so that no pair is
missed.

* `Territory.front_settle`       : where different origins come to stand side by side;
* `Territory.borders_settle`     : the borders that a settled cell adds;
* `Territory.Touching.advance`   : every unit keeps the contacts least;
* `Territory.touching_taken`     : so they are when all territory is taken.
-/

set_option autoImplicit false

namespace Signalbox

namespace Territory

variable {s : Territory} {c d x y : Cell} {r p q : Reach} {k : Origin.Pair} {n : Nat}
  {rest : Queue (Cell × Reach)}

/-! ## Laid anchors -/

/-- All anchors are laid. -/
def Laid (s : Territory) : Prop := ∀ o c, Origin.Anchored s.origins o c → c ∈ s.track

theorem Laid.advance (h : Laid s) : Laid s.advance := by
  unfold Laid
  rw [(ground_advance s).1, (ground_advance s).2]
  exact h

theorem Frontier.mem_track (h : Frontier s) (laid : s.Laid) (hr : s.Reached c r) :
    c ∈ s.track := by
  obtain ⟨b, hb, hw⟩ := h.arrives hr
  exact hw.mem (laid _ b hb)

theorem Frontier.mem_track_of_owned (h : Frontier s) (laid : s.Laid) (hc : c ∈ s.owners) :
    c ∈ s.track := by
  obtain ⟨r, hr⟩ := mem_iff_lookup.1 hc
  exact h.mem_track laid (Or.inl hr)

theorem Laid.settle (laid : s.Laid) (rest : Queue (Cell × Reach)) (c : Cell) (r : Reach) :
    ((s.behind rest).settle c r).Laid := by
  unfold Laid
  rw [track_settle, origins_settle]
  exact laid

/-! ## Fronts -/

/-- Two neighbouring cells that different origins own. -/
def Front (s : Territory) (x : Cell) (p : Reach) (y : Cell) (q : Reach) : Prop :=
  s.owners[x]? = some p ∧ y ∈ s.track.neighbors x ∧ s.owners[y]? = some q ∧ q.origin ≠ p.origin

theorem Front.symm (h : Frontier s) (laid : s.Laid) (front : s.Front x p y q) :
    s.Front y q x p := by
  obtain ⟨hx, hy, hq, differs⟩ := front
  exact ⟨hq, Track.mem_neighbors_symm (h.mem_track laid (Or.inl hx)) hy, hx, differs.symm⟩

/-- **The fronts that a settled cell adds are its own**, seen from either side. -/
theorem front_settle (h : Frontier s) (laid : s.Laid)
    (hq : s.queue.toList = (c, r) :: rest.toList) (hc : c ∉ s.owners) :
    ((s.behind rest).settle c r).Front x p y q ↔ s.Front x p y q ∨
      (x = c ∧ ((s.behind rest).settle c r).Front c p y q) ∨
      (y = c ∧ ((s.behind rest).settle c r).Front c q x p) := by
  have track : ((s.behind rest).settle c r).track = s.track := track_settle _ c r
  have owner (z : Cell) : ((s.behind rest).settle c r).owners[z]? =
      if c = z then some r else s.owners[z]? := getElem?_owners_settle _ c r z
  have kept {z : Cell} {k : Reach} (hz : s.owners[z]? = some k) :
      ((s.behind rest).settle c r).owners[z]? = some k := by
    have apart : c ≠ z := by
      rintro rfl
      exact hc (mem_iff_lookup.2 ⟨k, hz⟩)
    rw [owner, if_neg apart, hz]
  constructor
  · intro front
    by_cases hx : x = c
    · subst hx
      exact Or.inr (Or.inl ⟨rfl, front⟩)
    · by_cases hy : y = c
      · subst hy
        exact Or.inr (Or.inr ⟨rfl, front.symm (h.settle hq hc) (laid.settle rest y r)⟩)
      · -- both cells had their owners before
        obtain ⟨hp, hn, hk, differs⟩ := front
        rw [owner, if_neg (Ne.symm hx)] at hp
        rw [owner, if_neg (Ne.symm hy)] at hk
        exact Or.inl ⟨hp, track ▸ hn, hk, differs⟩
  · rintro (⟨hp, hn, hk, differs⟩ | ⟨rfl, front⟩ | ⟨rfl, front⟩)
    · exact ⟨kept hp, track.symm ▸ hn, kept hk, differs⟩
    · exact front
    · exact front.symm (h.settle hq hc) (laid.settle rest y r)

theorem front_settle_self : ((s.behind rest).settle c r).Front c p y q ↔
    p = r ∧ y ∈ s.track.neighbors c ∧ (s.owners.insert c r)[y]? = some q ∧ q.origin ≠ r.origin := by
  have own : ((s.behind rest).settle c r).owners[c]? = some r := by
    rw [getElem?_owners_settle, if_pos rfl]
  have track : ((s.behind rest).settle c r).track = s.track := track_settle _ c r
  have owners : ((s.behind rest).settle c r).owners = s.owners.insert c r := owners_settle _ c r
  rw [Front, own, track, owners, Option.some.injEq, eq_comm]
  exact and_congr_right fun same => by rw [same]

/-! ## Borders -/

/-- Two origins own neighbouring cells, whose distances add up to so many steps. -/
def Borders (s : Territory) (k : Origin.Pair) (n : Nat) : Prop :=
  ∃ c r d, s.owners[c]? = some r ∧ d ∈ s.track.neighbors c ∧ Meets s.owners r d k n

theorem borders_of_front (front : s.Front c r d q) :
    s.Borders (.of r.origin q.origin) (r.distance + 1 + q.distance) := by
  obtain ⟨hc, hd, hq, differs⟩ := front
  exact ⟨c, r, d, hc, hd, q, hq, differs, rfl, rfl⟩

/-- The borders that a settled cell adds are those with its neighbours. -/
theorem borders_settle (h : Frontier s) (laid : s.Laid)
    (hq : s.queue.toList = (c, r) :: rest.toList) (hc : c ∉ s.owners) :
    ((s.behind rest).settle c r).Borders k n ↔
      s.Borders k n ∨ ∃ d ∈ s.track.neighbors c, Meets (s.owners.insert c r) r d k n := by
  constructor
  · rintro ⟨x, p, y, hx, hy, q, hyq, differs, rfl, rfl⟩
    rcases (front_settle h laid hq hc).1 ⟨hx, hy, hyq, differs⟩ with old | ⟨rfl, new⟩ | ⟨rfl, new⟩
    · exact Or.inl (borders_of_front old)
    · obtain ⟨rfl, hn, owned, differs⟩ := front_settle_self.1 new
      exact Or.inr ⟨y, hn, q, owned, differs, rfl, rfl⟩
    · -- the new cell is the second of the two
      obtain ⟨rfl, hn, owned, differs⟩ := front_settle_self.1 new
      exact Or.inr ⟨x, hn, p, owned, differs, Origin.Pair.of_comm _ _, by omega⟩
  · rintro (⟨x, p, y, hx, hy, q, hyq, differs, rfl, rfl⟩ | ⟨d, hd, q, owned, differs, rfl, rfl⟩)
    · exact borders_of_front ((front_settle h laid hq hc).2 (Or.inl ⟨hx, hy, hyq, differs⟩))
    · exact borders_of_front (front_settle_self.2 ⟨rfl, hd, owned, differs⟩)

/-! ## The invariant -/

/-- A way in which two origins make contact: they share an anchor, or own neighbouring cells. -/
def Touches (s : Territory) (k : Origin.Pair) (n : Nat) : Prop :=
  Shares s.origins k n ∨ s.Borders k n

/-- Every contact has the least length of all ways to make it. -/
def Touching (s : Territory) : Prop := ∀ k, Least (s.Touches k) s.contacts[k]?

theorem touching_start (t : Track) (ns : List Site) : Touching (start t ns) := by
  intro k
  apply (least_start t ns k).congr
  intro n
  simp [Touches, Borders]

/-- **Every unit keeps the contacts least.** -/
theorem Touching.advance (ht : Touching s) (h : Frontier s) (laid : s.Laid)
    (hs : s.isDone = false) : Touching s.advance := by
  obtain ⟨c, r, rest, hq, ⟨-, he⟩ | ⟨hc, he⟩⟩ := advance_cases hs
  · rw [he]
    exact ht
  · rw [he]
    intro k
    have origins : ((s.behind rest).settle c r).origins = s.origins := origins_settle _ c r
    have before : Least (s.Touches k) (s.behind rest).contacts[k]? := ht k
    apply (least_settle before c r).congr
    intro n
    unfold Touches
    rw [borders_settle h laid hq hc, origins, or_assoc]
    rfl

/-- **The contacts are least when all territory is taken.** -/
theorem touching_taken {t : Track} {ns : List Site} (laid : Laid (start t ns)) :
    Touching (taken t ns) := by
  have kept : ∀ u : Territory, u.isDone = false → Frontier u ∧ Laid u ∧ Touching u →
      Frontier u.advance ∧ Laid u.advance ∧ Touching u.advance := by
    rintro u hu ⟨h, hl, ht⟩
    exact ⟨h.advance hu, hl.advance, ht.advance h hl hu⟩
  exact (Stepwise.finished_induction kept
    ⟨frontier_start t ns, laid, touching_start t ns⟩).2.2

end Territory

end Signalbox
