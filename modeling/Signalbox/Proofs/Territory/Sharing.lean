import Signalbox.Proofs.Territory.Separate

/-!
# Links at shared anchors

Where several nodes have the same cell as an anchor, the first of them by id takes it, and each of the
others is linked to that one over no steps.  The others are not linked to each other for that: they
come together only over the first.  Where no third node has the cell, the two that share it are linked
themselves.

* `Territory.joins_zero_iff`         : which links have no steps;
* `SharesAnchor.of_noThird`          : two nodes alone at an anchor share it, one of them as its first;
* `Territory.shared_anchors_connect` : what sharing an anchor comes to.
-/

set_option autoImplicit false

namespace Signalbox

/-- Of all sites, none but two has the cell as an anchor. -/
def Site.NoThird (ns : List Site) (m k : Site) (c : Cell) : Prop :=
  ∀ p ∈ ns, c ∈ p.anchors → p.id = m.id ∨ p.id = k.id

namespace SharesAnchor

variable {ns : List Site} {m k : Site} {c : Cell} {x y : NodeId}

theorem lt (h : SharesAnchor ns x y) (hne : x ≠ y) : x < y := Ident.lt_iff_le_and_ne.2 ⟨h.le, hne⟩

/-- Two nodes alone at an anchor share it, one of them as its first. -/
theorem of_noThird (hm : m ∈ ns) (hk : k ∈ ns) (hcm : c ∈ m.anchors) (hck : c ∈ k.anchors)
    (alone : Site.NoThird ns m k c) : SharesAnchor ns m.id k.id ∨ SharesAnchor ns k.id m.id := by
  have atM : ∃ p ∈ ns, p.id = m.id ∧ c ∈ p.anchors := ⟨m, hm, rfl, hcm⟩
  have atK : ∃ p ∈ ns, p.id = k.id ∧ c ∈ p.anchors := ⟨k, hk, rfl, hck⟩
  rcases Ident.le_total m.id k.id with le | le
  · refine Or.inl ⟨c, atK, atM, fun p hp hcp => ?_⟩
    rcases alone p hp hcp with id | id
    · exact id ▸ String.le_refl _
    · exact id ▸ le
  · refine Or.inr ⟨c, atM, atK, fun p hp hcp => ?_⟩
    rcases alone p hp hcp with id | id
    · exact id ▸ le
    · exact id ▸ String.le_refl _

end SharesAnchor

namespace Territory

variable {t : Track} {ns : List Site} {x y : NodeId}

section

variable (ids : (ns.map Site.id).Nodup) (laid : ∀ m ∈ ns, ∀ a ∈ m.anchors, a ∈ t)
include ids laid

/-- A link without steps leads from the first node at some anchor to another one that has it too. -/
theorem link_zero_iff : ⟨x, y, 0⟩ ∈ (taken t ns).links ↔ x < y ∧ SharesAnchor ns x y := by
  rw [mem_links_iff ids laid]
  constructor
  · rintro ⟨hlt, ⟨-, shares⟩ | ⟨c, r, d, q, -, -, -, -, -, steps⟩, -⟩
    · exact ⟨hlt, shares⟩
    · -- a border has a step of its own
      simp only at steps
      omega
  · rintro ⟨hlt, shares⟩
    exact ⟨hlt, Or.inl ⟨rfl, shares⟩, fun n _ => Nat.zero_le n⟩

/-- **Which links have no steps.** -/
theorem joins_zero_iff (hne : x ≠ y) :
    (taken t ns).Joins x y 0 ↔ SharesAnchor ns x y ∨ SharesAnchor ns y x := by
  rw [Joins, link_zero_iff ids laid, link_zero_iff ids laid,
    and_iff_right_of_imp fun shares => shares.lt hne,
    and_iff_right_of_imp fun shares => shares.lt hne.symm]

/-- **Sharing an anchor connects two nodes** over links without steps, whatever the schedule that
finishes the territory.  Such a link joins them exactly if one of them is the first by id of all nodes
at an anchor of both; and so it does, if an anchor of both is that of no third node. -/
theorem shared_anchors_connect {bs : List Allowance}
    (done : (Stepwise.after bs (start t ns)).isDone = true) :
    let s := Stepwise.after bs (start t ns)
    ∀ m ∈ ns, ∀ k ∈ ns, m.id ≠ k.id →
      (s.Joins m.id k.id 0 ↔ SharesAnchor ns m.id k.id ∨ SharesAnchor ns k.id m.id) ∧
      ∀ c, c ∈ m.anchors → c ∈ k.anchors →
        s.Joined 0 m.id k.id ∧ (Site.NoThird ns m k c → s.Joins m.id k.id 0) := by
  intro s m hm k hk hne
  have finished : s = taken t ns := Stepwise.after_eq_finished done
  rw [finished]
  refine ⟨joins_zero_iff ids laid hne, fun c hcm hck => ⟨?chain, fun alone => ?link⟩⟩
  case chain => exact joined_of_walk ids laid hm hcm hk hck .here
  case link => exact (joins_zero_iff ids laid hne).2 (SharesAnchor.of_noThird hm hk hcm hck alone)

end

/-- Stations on two cells, one of which the first two share and the other the last two. -/
theorem shared_anchors_connect_pairwise :
    let track := (Track.empty.insert ⟨0, 64, 0⟩).insert ⟨1, 64, 0⟩
    let site (name : String) (anchors : List Cell) : Site :=
      ⟨⟨⟨name⟩, .station, ⟨0, 65, 0⟩, none, none⟩, anchors⟩
    let b := site "B" [⟨0, 64, 0⟩, ⟨1, 64, 0⟩]
    let c := site "C" [⟨1, 64, 0⟩]
    let ns := [site "A" [⟨0, 64, 0⟩], b, c]
    (Stepwise.after [.units 2, .units 100] (start track ns)).Joins b.id c.id 0 := by
  intro track site b c ns
  have ids : (ns.map Site.id).Nodup := by decide
  have laid : ∀ m ∈ ns, ∀ a ∈ m.anchors, a ∈ track := by decide +kernel
  have done : (Stepwise.after [.units 2, .units 100] (start track ns)).isDone = true := by
    decide +kernel
  have alone : Site.NoThird ns b c ⟨1, 64, 0⟩ := by
    unfold Site.NoThird
    decide +kernel
  have connect := shared_anchors_connect ids laid done b (by simp [ns]) c (by simp [ns]) (by decide)
  exact (connect.2 ⟨1, 64, 0⟩ (by decide) (by decide)).2 alone

/-- Three stations at one cell: the last two share it as well, and are not linked. -/
theorem third_sharer_unlinked :
    let cell : Cell := ⟨0, 64, 0⟩
    let track := Track.empty.insert cell
    let site (name : String) : Site := ⟨⟨⟨name⟩, .station, ⟨0, 65, 0⟩, none, none⟩, [cell]⟩
    let b := site "B"
    let c := site "C"
    let ns := [site "A", b, c]
    let s := Stepwise.after [.units 100] (start track ns)
    ((ns.map Site.id).Nodup ∧ (∀ m ∈ ns, ∀ a ∈ m.anchors, a ∈ track) ∧ s.isDone = true) ∧
    (b ∈ ns ∧ c ∈ ns ∧ b.id ≠ c.id ∧ cell ∈ b.anchors ∧ cell ∈ c.anchors) ∧
      ∀ n, ¬ s.Joins b.id c.id n := by
  intro cell track site b c ns s
  have links : s.links = [⟨⟨"A"⟩, ⟨"B"⟩, 0⟩, ⟨⟨"A"⟩, ⟨"C"⟩, 0⟩] := by decide +kernel
  refine ⟨by decide +kernel, by decide, fun n joins => ?_⟩
  rw [Joins, links] at joins
  simp [b, c, site, Site.id] at joins

end Territory

end Signalbox
