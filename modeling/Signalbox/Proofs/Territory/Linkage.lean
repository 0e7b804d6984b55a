import Mathlib.Data.List.Nodup
import Mathlib.Logic.Relation
import Mathlib.Order.Bounds.Defs
import Signalbox.Proofs.Territory.Extent
import Signalbox.Proofs.Territory.Outcome

/-!
# Links join what the track connects

Only nodes whose territories touch are linked, but no connection is lost: along a walk between the
anchors of two nodes the owner changes only where two territories touch, so that a chain of links
follows the walk.  Since an owner is no further from a cell than the two ends of the walk, no link
of that chain is longer than the walk.

* `Territory.walk_of_joins`   : a link is as long as some walk between anchors of its ends;
* `Territory.joined_of_walk`  : a walk between anchors is followed by a chain of links, none longer;
* `Territory.length_le_holding` : a link is no longer than its ends hold cells;
* `Territory.lengths_fit`       : all distances and lengths fit a word that counts the track;
* `Territory.links_keep_closest` : links keep the closest connections, and add none that the track
  does not have.
-/

set_option autoImplicit false

namespace Signalbox

/-- `n` steps lead from an anchor of one site to an anchor of another one. -/
def Site.ReachesSite (t : Track) (m k : Site) (n : Nat) : Prop := ∃ b ∈ k.anchors, m.Reaches t b n

theorem SharesAnchor.le {ns : List Site} {x y : NodeId} (h : SharesAnchor ns x y) : x ≤ y := by
  obtain ⟨c, ⟨m, hm, rfl, hc⟩, -, least⟩ := h
  exact least m hm hc

namespace Territory

variable {s : Territory} {t : Track} {ns : List Site} {a b c d : Cell} {r q : Reach}
  {x y : NodeId} {m k : Site} {i j n : Nat}

/-- A link of so many steps has the two nodes as its ends, in either order. -/
def Joins (s : Territory) (x y : NodeId) (n : Nat) : Prop :=
  ⟨x, y, n⟩ ∈ s.links ∨ ⟨y, x, n⟩ ∈ s.links

theorem Joins.symm (h : s.Joins x y n) : s.Joins y x n := Or.symm h

/-- A chain of links, none longer than a bound, leads from one node to the other. -/
def Joined (s : Territory) (bound : Nat) : NodeId → NodeId → Prop :=
  Relation.ReflTransGen fun x y => ∃ n ≤ bound, s.Joins x y n

theorem Joined.mono (hij : i ≤ j) (h : s.Joined i x y) : s.Joined j x y :=
  Relation.ReflTransGen.mono (fun _ _ ⟨n, hn, hj⟩ => ⟨n, Nat.le_trans hn hij, hj⟩) x y h

theorem Joined.single (h : s.Joins x y n) (hle : n ≤ i) : s.Joined i x y :=
  Relation.ReflTransGen.single ⟨n, hle, h⟩

/-- A chain that leads away from a node starts with a link of that node. -/
theorem Joined.exists_joins (h : s.Joined i x y) (hne : x ≠ y) :
    ∃ z, ∃ n ≤ i, s.Joins x z n := by
  rcases Relation.ReflTransGen.cases_head h with rfl | ⟨z, ⟨n, hn, hj⟩, -⟩
  · exact absurd rfl hne
  · exact ⟨z, n, hn, hj⟩

section

variable (ids : (ns.map Site.id).Nodup) (laid : ∀ m ∈ ns, ∀ a ∈ m.anchors, a ∈ t)
include ids laid

/-- Two different nodes that touch are linked, no longer than they touch. -/
theorem exists_link_of_touchesOn (hlt : x < y) (h : TouchesOn ns (taken t ns) x y n) :
    ∃ l ≤ n, ⟨x, y, l⟩ ∈ (taken t ns).links := by
  have o := outcome_taken ids laid
  have some_link : ∃ l, ⟨x, y, l⟩ ∈ (taken t ns).links :=
    (o.linked x y hlt).2 (h.imp And.right fun hb => ⟨n, hb⟩)
  obtain ⟨l, hl⟩ := some_link
  exact ⟨l, (o.shortest x y l hl).2 n h, hl⟩

theorem joins_of_neighbors (hc : (taken t ns).owners[c]? = some r)
    (hd : (taken t ns).owners[d]? = some q) (hn : d ∈ t.neighbors c) :
    r.origin.id = q.origin.id ∨
      ∃ l ≤ r.distance + 1 + q.distance,
        (taken t ns).Joins r.origin.id q.origin.id l := by
  have hct : c ∈ t := by
    obtain ⟨m, hm, -, a, ha, hw⟩ := reaches_of_owners ids hc
    exact hw.mem (laid m hm a ha)
  by_cases he : r.origin.id = q.origin.id
  · exact Or.inl he
  refine Or.inr ?_
  rcases Ident.le_total r.origin.id q.origin.id with hle | hle
  · have hlt := Ident.lt_iff_le_and_ne.2 ⟨hle, he⟩
    have forth : d ∈ (taken t ns).track.neighbors c := by
      rw [track_taken]
      exact hn
    obtain ⟨l, hl, hj⟩ := exists_link_of_touchesOn ids laid hlt
      (Or.inr ⟨c, r, d, q, hc, hd, forth, rfl, rfl, rfl⟩)
    exact ⟨l, hl, Or.inl hj⟩
  · have hlt := Ident.lt_iff_le_and_ne.2 ⟨hle, Ne.symm he⟩
    have back : c ∈ (taken t ns).track.neighbors d := by
      rw [track_taken]
      exact Track.mem_neighbors_symm hct hn
    obtain ⟨l, hl, hj⟩ := exists_link_of_touchesOn (n := r.distance + 1 + q.distance) ids laid hlt
      (Or.inr ⟨d, q, c, r, hd, hc, back, rfl, rfl, by omega⟩)
    exact ⟨l, hl, Or.inr hj⟩

omit laid in
theorem owner_of_anchor (hm : m ∈ ns) (ha : a ∈ m.anchors) :
    ∃ r, (taken t ns).owners[a]? = some r ∧ r.distance = 0 ∧ SharesAnchor ns r.origin.id m.id := by
  obtain ⟨r, hr, near, -⟩ := owned_of_reaches (t := t) ids hm ⟨a, ha, .here⟩
  have zero : r.distance = 0 := Nat.le_zero.1 near
  obtain ⟨k, hk, hid, b, hb, hw⟩ := reaches_of_owners ids hr
  rw [zero] at hw
  refine ⟨r, hr, zero, a, ⟨m, hm, rfl, ha⟩, ⟨k, hk, hid, hw.eq_of_zero ▸ hb⟩, fun p hp hap => ?_⟩
  obtain ⟨q, hq, -, tie⟩ := owned_of_reaches (t := t) ids hp ⟨a, hap, .here⟩
  rw [hr] at hq
  cases hq
  exact tie zero.symm

/-- The owner of an anchor is the node that has it, or linked to that node at no distance. -/
theorem joins_of_anchor (hm : m ∈ ns) (ha : a ∈ m.anchors) :
    ∃ r, (taken t ns).owners[a]? = some r ∧ r.distance = 0 ∧
      (r.origin.id = m.id ∨ (taken t ns).Joins r.origin.id m.id 0) := by
  obtain ⟨r, hr, zero, shared⟩ := owner_of_anchor (t := t) ids hm ha
  refine ⟨r, hr, zero, ?_⟩
  by_cases he : r.origin.id = m.id
  · exact Or.inl he
  have hlt := Ident.lt_iff_le_and_ne.2 ⟨shared.le, he⟩
  obtain ⟨l, hl, hj⟩ := exists_link_of_touchesOn ids laid hlt (Or.inl ⟨rfl, shared⟩)
  rw [Nat.le_zero.1 hl] at hj
  exact Or.inr (Or.inl hj)

/-- **A chain of links follows every walk** between anchors of two nodes, and none of its links is
longer than the walk. -/
theorem joined_of_walk (hm : m ∈ ns) (ha : a ∈ m.anchors) (hk : k ∈ ns) (hb : b ∈ k.anchors)
    (hw : t.Walk a b n) : (taken t ns).Joined n m.id k.id := by
  have o := outcome_taken ids laid
  have hat : a ∈ t := laid m hm a ha
  -- from the first node to the owner of every cell on the walk
  have along {c : Cell} {i j : Nat} (hac : t.Walk a c i) (hcb : t.Walk c b j) (hn : i + j = n) :
      ∃ r, (taken t ns).owners[c]? = some r ∧
        (taken t ns).Joined n m.id r.origin.id := by
    induction hac generalizing j with
    | here =>
      obtain ⟨r, hr, -, he | hj⟩ := joins_of_anchor ids laid hm ha
      · exact ⟨r, hr, by rw [he]; exact Relation.ReflTransGen.refl⟩
      · exact ⟨r, hr, .single hj.symm (Nat.zero_le _)⟩
    | @step c d i hac hd ih =>
      obtain ⟨r, hr, hjoin⟩ := ih ((Track.Walk.one hd).trans hcb) (by omega)
      have hdt : d ∈ t := Track.mem_of_mem_neighbors hd
      obtain ⟨q, hq, hqd, -⟩ := owned_of_reaches ids hk ⟨b, hb, hcb.symm hdt⟩
      obtain ⟨hrd, -⟩ := o.nearest c r hr m hm i ⟨a, ha, hac⟩
      refine ⟨q, hq, ?_⟩
      rcases joins_of_neighbors ids laid hr hq hd with he | ⟨l, hl, hj⟩
      · rw [← he]
        exact hjoin
      · exact hjoin.tail ⟨l, by omega, hj⟩
  obtain ⟨r, hr, hjoin⟩ := along hw .here rfl
  obtain ⟨q, hq, -, he | hj⟩ := joins_of_anchor ids laid hk hb
  · rw [hr] at hq
    cases hq
    rw [← he]
    exact hjoin
  · rw [hr] at hq
    cases hq
    exact hjoin.tail ⟨0, Nat.zero_le _, hj⟩

/-- **A link is as long as some walk between anchors of its ends.** -/
theorem walk_of_joins (h : (taken t ns).Joins x y n) :
    ∃ m ∈ ns, ∃ k ∈ ns, m.id = x ∧ k.id = y ∧
      ∃ a ∈ m.anchors, ∃ b ∈ k.anchors, t.Walk a b n := by
  have forward {x y : NodeId} (hl : ⟨x, y, n⟩ ∈ (taken t ns).links) :
      ∃ m ∈ ns, ∃ k ∈ ns, m.id = x ∧ k.id = y ∧
        ∃ a ∈ m.anchors, ∃ b ∈ k.anchors, t.Walk a b n := by
    rcases ((outcome_taken ids laid).shortest x y n hl).1 with
      ⟨rfl, c, ⟨k, hk, rfl, hck⟩, ⟨m, hm, rfl, hcm⟩, -⟩ | ⟨c, r, d, q, hc, hd, hn, rfl, rfl, rfl⟩
    · exact ⟨m, hm, k, hk, rfl, rfl, c, hcm, c, hck, .here⟩
    · obtain ⟨m, hm, hmid, a, ha, hac⟩ := reaches_of_owners ids hc
      obtain ⟨k, hk, hkid, b, hb, hbd⟩ := reaches_of_owners ids hd
      rw [track_taken] at hn
      exact ⟨m, hm, k, hk, hmid, hkid, a, ha, b, hb,
        (hac.step hn).trans (hbd.symm (laid k hk b hb))⟩
  rcases h with h | h
  · exact forward h
  · obtain ⟨m, hm, k, hk, hmid, hkid, a, ha, b, hb, hw⟩ := forward h
    exact ⟨k, hk, m, hm, hkid, hmid, b, hb, a, ha, hw.symm (laid m hm a ha)⟩

/-- **A link is no longer than its ends together hold cells.** -/
theorem length_le_holding (h : (taken t ns).Joins x y n) :
    n ≤ (taken t ns).holding x + (taken t ns).holding y := by
  have forward {x y : NodeId} (hl : ⟨x, y, n⟩ ∈ (taken t ns).links) :
      n ≤ (taken t ns).holding x +
        (taken t ns).holding y := by
    rcases ((outcome_taken ids laid).shortest x y n hl).1 with
      ⟨rfl, -⟩ | ⟨c, r, d, q, hc, hd, -, rfl, rfl, rfl⟩
    · exact Nat.zero_le _
    · have hr := (frontier_taken t ns).distance_lt_holding hc
      have hq := (frontier_taken t ns).distance_lt_holding hd
      omega
  rcases h with h | h
  · exact forward h
  · have := forward h
    omega

theorem mem_of_owned (h : c ∈ (taken t ns).owners) : c ∈ (taken t ns).track :=
  (frontier_taken t ns).mem_track_of_owned (laid_taken ids laid) h

/-- **A link is shorter than there is track**, so that its length fits a word that counts the
track. -/
theorem length_lt_size (h : ⟨x, y, n⟩ ∈ (taken t ns).links) : n < t.size := by
  have apart : x ≠ y := (Ident.lt_iff_le_and_ne.1 ((outcome_taken ids laid).ascending _ h)).2
  rcases ((outcome_taken ids laid).shortest x y n h).1 with
    ⟨rfl, c, ⟨m, hm, -, hc⟩, -⟩ | ⟨c, r, d, q, hc, hd, -, rfl, rfl, rfl⟩
  · obtain ⟨r, hr, -⟩ := owned_of_reaches ids hm ⟨c, hc, .here⟩
    have far := (frontier_taken t ns).distance_lt_size (laid_taken ids laid) hr
    rw [track_taken] at far
    omega
  · have other : q.origin ≠ r.origin := fun same => apart (congrArg Origin.id same).symm
    have far := (frontier_taken t ns).touch_lt_size (laid_taken ids laid) hc hd other
    rwa [track_taken] at far

/-- **All distances and lengths fit a word of 32 bits** that can count the track. -/
theorem lengths_fit (small : t.size ≤ UInt32.size) :
    (∀ (c : Cell) (r : Reach), (taken t ns).owners[c]? = some r → r.distance < UInt32.size) ∧
      ∀ l ∈ (taken t ns).links, l.length < UInt32.size := by
  refine ⟨fun c r owned => ?_, fun l hl => ?_⟩
  · have far := (frontier_taken t ns).distance_lt_size (laid_taken ids laid) owned
    rw [track_taken] at far
    exact Nat.lt_of_lt_of_le far small
  · exact Nat.lt_of_lt_of_le (length_lt_size ids laid hl) small

/-! ## The closest connections -/

theorem ne_of_joins (h : (taken t ns).Joins x y n) : x ≠ y := by
  have o := outcome_taken ids laid
  rcases h with h | h
  · exact (Ident.lt_iff_le_and_ne.1 (o.ascending _ h)).2
  · exact (Ident.lt_iff_le_and_ne.1 (o.ascending _ h)).2.symm

theorem reachesSite_of_joins (hm : m ∈ ns) (h : (taken t ns).Joins m.id y n) :
    ∃ k ∈ ns, k.id = y ∧ k.id ≠ m.id ∧ m.ReachesSite t k n := by
  obtain ⟨m', hm', k, hk, hid, rfl, a, ha, b, hb, hw⟩ := walk_of_joins ids laid h
  cases List.inj_on_of_nodup_map ids hm' hm hid
  exact ⟨k, hk, rfl, (ne_of_joins ids laid h).symm, b, hb, a, ha, hw⟩

/-- The shortest link of a node is as long as the way to the nearest other node. -/
theorem isLeast_joins (hm : m ∈ ns)
    (h : IsLeast {n | ∃ k ∈ ns, k.id ≠ m.id ∧ m.ReachesSite t k n} n) :
    IsLeast {n | ∃ y, (taken t ns).Joins m.id y n} n := by
  have bound {l : Nat} {y : NodeId} (hj : (taken t ns).Joins m.id y l) : n ≤ l := by
    obtain ⟨k, hk, -, hne, hw⟩ := reachesSite_of_joins ids laid hm hj
    exact h.2 ⟨k, hk, hne, hw⟩
  obtain ⟨⟨k, hk, hne, b, hb, a, ha, hw⟩, -⟩ := h
  obtain ⟨y, l, hl, hj⟩ :=
    (joined_of_walk ids laid hm ha hk hb hw).exists_joins hne.symm
  refine ⟨⟨y, ?_⟩, fun l ⟨y, hj⟩ => bound hj⟩
  rwa [Nat.le_antisymm (bound hj) hl]

/-- **Links keep the closest connections**, whatever the schedule that finishes the territory.  A
chain of links, none longer than the walk, follows every walk between anchors of two nodes; the
shortest link of a node is as long as the way to the nearest other node; and every link is as long as
some walk between anchors of its ends. -/
theorem links_keep_closest {bs : List Allowance}
    (done : (Stepwise.after bs (start t ns)).isDone = true) :
    let s := Stepwise.after bs (start t ns)
    (∀ m ∈ ns, ∀ k ∈ ns, ∀ n, m.ReachesSite t k n → s.Joined n m.id k.id) ∧
      (∀ m ∈ ns, ∀ n, IsLeast {n | ∃ k ∈ ns, k.id ≠ m.id ∧ m.ReachesSite t k n} n →
        IsLeast {n | ∃ y, s.Joins m.id y n} n) ∧
      ∀ l ∈ s.links, ∃ m ∈ ns, ∃ k ∈ ns, m.id = l.a ∧ k.id = l.b ∧
        m.ReachesSite t k l.length := by
  intro s
  have finished : s = taken t ns := Stepwise.after_eq_finished done
  rw [finished]
  refine ⟨?chain, fun m hm n h => isLeast_joins ids laid hm h, ?walk⟩
  case chain =>
    rintro m hm k hk n ⟨b, hb, a, ha, hw⟩
    exact joined_of_walk ids laid hm ha hk hb hw
  case walk =>
    intro l hl
    obtain ⟨m, hm, k, hk, hmid, hkid, a, ha, b, hb, hw⟩ := walk_of_joins ids laid (Or.inl hl)
    exact ⟨m, hm, k, hk, hmid, hkid, b, hb, a, ha, hw⟩

end

/-- Three stations on a line of five cells: the two at its ends are not linked, but the one between
them, two steps from either, is the middle of a chain. -/
theorem links_keep_closest_line :
    let line := [⟨0, 64, 0⟩, ⟨1, 64, 0⟩, ⟨2, 64, 0⟩, ⟨3, 64, 0⟩, ⟨4, 64, 0⟩].foldl Track.insert .empty
    let site (name : String) (x : Int32) : Site := ⟨⟨⟨name⟩, .station, ⟨x, 65, 0⟩, none, none⟩,
      [⟨x, 64, 0⟩]⟩
    let ns := [site "A" 0, site "M" 2, site "B" 4]
    let s := Stepwise.after [.units 2, .units 100] (start line ns)
    s.links = [⟨⟨"A"⟩, ⟨"M"⟩, 2⟩, ⟨⟨"B"⟩, ⟨"M"⟩, 2⟩] ∧ s.Joined 4 ⟨"A"⟩ ⟨"B"⟩ := by
  intro line site ns s
  have ids : (ns.map Site.id).Nodup := by decide
  have laid : ∀ m ∈ ns, ∀ a ∈ m.anchors, a ∈ line := by decide +kernel
  have done : s.isDone = true := by decide +kernel
  have walk : line.Walk ⟨0, 64, 0⟩ ⟨4, 64, 0⟩ 4 :=
    .step (.step (.step (.step .here (d := ⟨1, 64, 0⟩) (by decide +kernel)) (d := ⟨2, 64, 0⟩)
      (by decide +kernel)) (d := ⟨3, 64, 0⟩) (by decide +kernel)) (by decide +kernel)
  refine ⟨by decide +kernel, ?_⟩
  exact (links_keep_closest ids laid done).1 (site "A" 0) (by simp [ns]) (site "B" 4) (by simp [ns]) 4
    ⟨_, List.mem_singleton_self _, _, List.mem_singleton_self _, walk⟩

end Territory

end Signalbox
