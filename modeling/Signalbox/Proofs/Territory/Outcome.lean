import Signalbox.Proofs.Territory.Nodes

/-!
# What taking territory comes to

For nodes of distinct ids with their anchors on track, the division of the track and the links are
determined by the layout alone: every cell that can be reached belongs to the nearest node, the one
of least id if several are nearest, and two nodes are linked by the shortest way on which they
touch.

* `Territory.touches_iff`   : in which ways two nodes touch;
* `Territory.outcome_taken` : what all territory taken looks like;
* `Territory.outcome`       : the same for every schedule that finishes.
-/

set_option autoImplicit false

namespace Signalbox

/-- The second node has an anchor of which the first node is the least by id. -/
def SharesAnchor (ns : List Site) (x y : NodeId) : Prop :=
  ∃ c, (∃ m ∈ ns, m.id = y ∧ c ∈ m.anchors) ∧ (∃ m ∈ ns, m.id = x ∧ c ∈ m.anchors) ∧
    ∀ m ∈ ns, c ∈ m.anchors → x ≤ m.id

namespace Territory

variable {s : Territory} {t : Track} {ns : List Site} {c d : Cell} {r q : Reach} {x y : NodeId}
  {n : Nat} {k : Origin.Pair}

/-- Two nodes own neighbouring cells, whose distances add up to so many steps. -/
def BordersOn (s : Territory) (x y : NodeId) (n : Nat) : Prop :=
  ∃ c r d q, s.owners[c]? = some r ∧ s.owners[d]? = some q ∧ d ∈ s.track.neighbors c ∧
    r.origin.id = x ∧ q.origin.id = y ∧ n = r.distance + 1 + q.distance

/-- Two nodes touch over so many steps: over none at a shared anchor, or across a border. -/
def TouchesOn (ns : List Site) (s : Territory) (x y : NodeId) (n : Nat) : Prop :=
  (n = 0 ∧ SharesAnchor ns x y) ∨ s.BordersOn x y n

/-- What all territory taken looks like. -/
structure Outcome (t : Track) (ns : List Site) (s : Territory) : Prop where
  /-- A cell is owned exactly if it is connected to an anchor. -/
  owned (c : Cell) : c ∈ s.owners ↔ ∃ m ∈ ns, ∃ a ∈ m.anchors, t.Connected a c
  /-- The owner of a cell is a node that gets there in the noted number of steps. -/
  attained (c : Cell) (r : Reach) : s.owners[c]? = some r →
    ∃ m ∈ ns, m.id = r.origin.id ∧ m.Reaches t c r.distance
  /-- No node gets there in fewer steps, and none of a lesser id in as many. -/
  nearest (c : Cell) (r : Reach) : s.owners[c]? = some r → ∀ m ∈ ns, ∀ n, m.Reaches t c n →
    r.distance ≤ n ∧ (n = r.distance → r.origin.id ≤ m.id)
  /-- The links are in strictly ascending order, so that no two have the same ends. -/
  sorted : s.links.Pairwise fun l k => l.a < k.a ∨ (l.a = k.a ∧ l.b < k.b)
  /-- The ends of a link are in ascending order. -/
  ascending (l : Link) : l ∈ s.links → l.a < l.b
  /-- Two nodes are linked exactly if they touch. -/
  linked (x y : NodeId) : x < y →
    ((∃ n, ⟨x, y, n⟩ ∈ s.links) ↔ SharesAnchor ns x y ∨ ∃ n, s.BordersOn x y n)
  /-- A link is as long as the shortest way on which its ends touch. -/
  shortest (x y : NodeId) (n : Nat) : ⟨x, y, n⟩ ∈ s.links →
    TouchesOn ns s x y n ∧ ∀ m, TouchesOn ns s x y m → n ≤ m

/-! ## Owners -/

theorem copy_of_owners (ids : (ns.map Site.id).Nodup)
    (hc : (taken t ns).owners[c]? = some r) : r.origin.copy = 0 :=
  ((arrives_start ids).1 ((frontier_taken t ns).arrives (Or.inl hc))).1

theorem reaches_of_owners (ids : (ns.map Site.id).Nodup)
    (hc : (taken t ns).owners[c]? = some r) :
    ∃ m ∈ ns, m.id = r.origin.id ∧ m.Reaches t c r.distance :=
  ((arrives_start ids).1 ((frontier_taken t ns).arrives (Or.inl hc))).2

/-- Whatever a node gets to has an owner, who gets there no later. -/
theorem owned_of_reaches (ids : (ns.map Site.id).Nodup) {m : Site} (hm : m ∈ ns)
    (hr : m.Reaches t c n) :
    ∃ r, (taken t ns).owners[c]? = some r ∧ r.distance ≤ n ∧
      (n = r.distance → r.origin.id ≤ m.id) := by
  have arrives : (taken t ns).Arrives ⟨n, ⟨m.id, 0⟩⟩ c :=
    (arrives_start ids).2 ⟨rfl, m, hm, rfl, hr⟩
  obtain ⟨r, hr, hle⟩ :=
    (frontier_taken t ns).owned_of_arrives (isDone_taken t ns) arrives
  refine ⟨r, hr, Rank.steps_le hle, fun heq => ?_⟩
  rcases hle with hlt | ⟨-, ho⟩
  · exact absurd hlt (Nat.not_lt.2 (Nat.le_of_eq heq))
  · exact (Origin.isLE_compare_of_copy_zero (copy_of_owners ids hr) rfl).1 ho

/-! ## Ways to touch -/

/-- The origins of two nodes share an anchor of the second node of which the first is the least. -/
theorem shares_iff (ids : (ns.map Site.id).Nodup) (hlt : x < y) :
    Shares (Origin.ofNodes ns) ⟨⟨x, 0⟩, ⟨y, 0⟩⟩ n ↔ n = 0 ∧ SharesAnchor ns x y := by
  refine and_congr_right fun _ => ⟨?_, ?_⟩
  · rintro ⟨c, p, o, hp, ho, -, hk⟩
    rw [Origin.firstAt_ofNodes ids] at hp
    rw [Origin.anchored_ofNodes ids] at ho
    obtain ⟨hz, hpm, hle⟩ := hp
    obtain ⟨hw, m, hm, hid, hc⟩ := ho
    rcases (Origin.Pair.of_eq_iff hz hw hlt).1 hk with ⟨rfl, rfl⟩ | ⟨rfl, rfl⟩
    · exact ⟨c, ⟨m, hm, hid, hc⟩, hpm, hle⟩
    · -- the first at the cell would be the greater of the two
      have back := hle m hm hc
      rw [hid] at back
      exact absurd hlt (Ident.not_lt.2 back)
  · rintro ⟨c, ⟨m, hm, hid, hc⟩, hx, hle⟩
    refine ⟨c, ⟨x, 0⟩, ⟨y, 0⟩, (Origin.firstAt_ofNodes ids).2 ⟨rfl, hx, hle⟩,
      (Origin.anchored_ofNodes ids).2 ⟨rfl, m, hm, hid, hc⟩, ?_, ?_⟩
    · intro he
      exact (Ident.lt_iff_le_and_ne.1 hlt).2 (congrArg Origin.id he)
    · exact (Origin.Pair.of_eq_iff rfl rfl hlt).2 (Or.inl ⟨rfl, rfl⟩)

theorem borders_iff (ids : (ns.map Site.id).Nodup) (laid : ∀ m ∈ ns, ∀ a ∈ m.anchors, a ∈ t)
    (hlt : x < y) :
    (taken t ns).Borders ⟨⟨x, 0⟩, ⟨y, 0⟩⟩ n ↔ (taken t ns).BordersOn x y n := by
  constructor
  · rintro ⟨c, r, d, hc, hd, q, hq, -, hk, hn⟩
    rcases (Origin.Pair.of_eq_iff (copy_of_owners ids hc) (copy_of_owners ids hq) hlt).1 hk with
      ⟨hx, hy⟩ | ⟨hy, hx⟩
    · exact ⟨c, r, d, q, hc, hq, hd, hx, hy, hn⟩
    · have hct := (frontier_taken t ns).mem_track (laid_taken ids laid) (Or.inl hc)
      exact ⟨d, q, c, r, hq, hc, Track.mem_neighbors_symm hct hd, hx, hy, by omega⟩
  · rintro ⟨c, r, d, q, hc, hq, hd, hx, hy, hn⟩
    refine ⟨c, r, d, hc, hd, q, hq, ?_, ?_, hn⟩
    · intro he
      rw [← hx, ← hy, he] at hlt
      exact Ident.lt_irrefl _ hlt
    · exact (Origin.Pair.of_eq_iff (copy_of_owners ids hc) (copy_of_owners ids hq) hlt).2
        (Or.inl ⟨hx, hy⟩)

theorem touches_iff (ids : (ns.map Site.id).Nodup) (laid : ∀ m ∈ ns, ∀ a ∈ m.anchors, a ∈ t)
    (hlt : x < y) :
    (taken t ns).Touches ⟨⟨x, 0⟩, ⟨y, 0⟩⟩ n ↔ TouchesOn ns (taken t ns) x y n := by
  unfold Touches TouchesOn
  rw [origins_taken, shares_iff ids hlt, borders_iff ids laid hlt]

/-! ## Links -/

theorem mem_links {l : Link} :
    l ∈ s.links ↔ ∃ k : Origin.Pair,
      s.contacts[k]? = some l.length ∧ k.a.id = l.a ∧ k.b.id = l.b := by
  unfold links
  simp only [List.mem_map, Prod.exists, Std.ExtTreeMap.mem_toList_iff_getElem?_eq_some]
  constructor
  · rintro ⟨k, n, hk, rfl⟩
    exact ⟨k, hk, rfl, rfl⟩
  · rintro ⟨k, hk, ha, hb⟩
    exact ⟨k, l.length, hk, by rw [ha, hb]⟩

/-- The origins in contact belong to two nodes, in ascending order. -/
theorem contact_ends (ids : (ns.map Site.id).Nodup) (laid : ∀ m ∈ ns, ∀ a ∈ m.anchors, a ∈ t)
    (hk : (taken t ns).contacts[k]? = some n) :
    ∃ x y, x < y ∧ k = ⟨⟨x, 0⟩, ⟨y, 0⟩⟩ := by
  have least := touching_taken (laid_start ids laid) k
  rw [hk] at least
  rcases least.1 with ⟨-, c, p, o, hp, ho, hne, rfl⟩ | ⟨c, r, d, hc, -, q, hq, hne, rfl, -⟩
  · rw [origins_taken] at hp ho
    exact Origin.Pair.of_copy_zero ((Origin.firstAt_ofNodes ids).1 hp).1
      ((Origin.anchored_ofNodes ids).1 ho).1 hne
  · exact Origin.Pair.of_copy_zero (copy_of_owners ids hc) (copy_of_owners ids hq) hne.symm

theorem mem_links_taken (ids : (ns.map Site.id).Nodup)
    (laid : ∀ m ∈ ns, ∀ a ∈ m.anchors, a ∈ t) :
    ⟨x, y, n⟩ ∈ (taken t ns).links ↔
      (taken t ns).contacts[(⟨⟨x, 0⟩, ⟨y, 0⟩⟩ : Origin.Pair)]? = some n := by
  rw [mem_links]
  constructor
  · rintro ⟨k, hk, rfl, rfl⟩
    obtain ⟨i, j, -, rfl⟩ := contact_ends ids laid hk
    exact hk
  · intro hk
    exact ⟨_, hk, rfl, rfl⟩

theorem sorted_links (ids : (ns.map Site.id).Nodup) (laid : ∀ m ∈ ns, ∀ a ∈ m.anchors, a ∈ t) :
    (taken t ns).links.Pairwise
      fun l k => l.a < k.a ∨ (l.a = k.a ∧ l.b < k.b) := by
  refine List.pairwise_map.2 (Std.ExtTreeMap.ordered_keys_toList.imp_of_mem ?_)
  rintro ⟨k, n⟩ ⟨l, m⟩ hk hl hlt
  rw [Std.ExtTreeMap.mem_toList_iff_getElem?_eq_some] at hk hl
  obtain ⟨i, j, -, rfl⟩ := contact_ends ids laid hk
  obtain ⟨u, v, -, rfl⟩ := contact_ends ids laid hl
  simp only [Origin.Pair.compare_def, Ordering.then_eq_lt] at hlt
  rw [Origin.compare_of_copy_zero rfl rfl, Origin.compare_of_copy_zero rfl rfl] at hlt
  rcases hlt with hlt | ⟨heq, hlt⟩
  · exact Or.inl (Ident.compare_eq_lt.1 hlt)
  · exact Or.inr ⟨Std.LawfulEqOrd.eq_of_compare heq, Ident.compare_eq_lt.1 hlt⟩

/-! ## The outcome -/

/-- What the territory of distinct nodes with laid anchors looks like when it is all taken. -/
theorem outcome_taken (ids : (ns.map Site.id).Nodup)
    (laid : ∀ m ∈ ns, ∀ a ∈ m.anchors, a ∈ t) :
    Outcome t ns (taken t ns) := by
  have least {x y : NodeId} (hlt : x < y) : Least (TouchesOn ns (taken t ns) x y)
      (taken t ns).contacts[(⟨⟨x, 0⟩, ⟨y, 0⟩⟩ : Origin.Pair)]? :=
    (touching_taken (laid_start ids laid) _).congr fun n => touches_iff ids laid hlt
  refine ⟨?owned, ?attained, ?nearest, sorted_links ids laid, ?ascending, ?linked, ?shortest⟩
  case owned =>
    intro c
    rw [mem_iff_lookup]
    constructor
    · rintro ⟨r, hr⟩
      obtain ⟨m, hm, -, a, ha, hw⟩ := reaches_of_owners ids hr
      exact ⟨m, hm, a, ha, r.distance, hw⟩
    · rintro ⟨m, hm, a, ha, n, hw⟩
      obtain ⟨r, hr, -⟩ := owned_of_reaches ids hm ⟨a, ha, hw⟩
      exact ⟨r, hr⟩
  case attained =>
    exact fun c r hr => reaches_of_owners ids hr
  case nearest =>
    intro c r hr m hm n hn
    obtain ⟨q, hq, hle⟩ := owned_of_reaches ids hm hn
    rw [hr] at hq
    cases hq
    exact hle
  case ascending =>
    intro l hl
    obtain ⟨k, hk, ha, hb⟩ := mem_links.1 hl
    obtain ⟨x, y, hlt, rfl⟩ := contact_ends ids laid hk
    rw [← ha, ← hb]
    exact hlt
  case linked =>
    intro x y hlt
    simp only [mem_links_taken ids laid]
    rw [← Option.isSome_iff_exists, (least hlt).isSome_iff]
    constructor
    · rintro ⟨n, ⟨-, h⟩ | h⟩
      · exact Or.inl h
      · exact Or.inr ⟨n, h⟩
    · rintro (h | ⟨n, h⟩)
      · exact ⟨0, Or.inl ⟨rfl, h⟩⟩
      · exact ⟨n, Or.inr h⟩
  case shortest =>
    intro x y n hl
    obtain ⟨k, hk, ha, hb⟩ := mem_links.1 hl
    obtain ⟨i, j, hlt, rfl⟩ := contact_ends ids laid hk
    cases ha
    cases hb
    exact (least hlt).eq_some_iff.1 hk

/-- **What taking territory comes to.**  Whatever the schedule that finishes it, the territory of
nodes with distinct ids and laid anchors belongs to the nearest nodes, those of least id among the
nearest, and the links are the shortest ways on which two nodes touch. -/
theorem outcome (ids : (ns.map Site.id).Nodup) (laid : ∀ m ∈ ns, ∀ a ∈ m.anchors, a ∈ t)
    {bs : List Allowance} (done : (Stepwise.after bs (start t ns)).isDone = true) :
    Outcome t ns (Stepwise.after bs (start t ns)) := by
  rw [Stepwise.after_eq_finished done]
  exact outcome_taken ids laid

/-- Two nodes at the ends of a line and a third one beside the second: the middle cell falls to the
first by name of the nodes that are as near. -/
theorem outcome_line :
    let line := (Track.empty.insert ⟨0, 64, 0⟩).insert ⟨1, 64, 0⟩ |>.insert ⟨2, 64, 0⟩
    let site (name : String) (x : Int32) : Site := ⟨⟨⟨name⟩, .station, ⟨x, 65, 0⟩, none, none⟩,
      [⟨x, 64, 0⟩]⟩
    let ns := [site "B" 2, site "C" 2, site "A" 0]
    let s := Stepwise.after [.units 2, .units 100] (start line ns)
    Outcome line ns s ∧ s.owner? ⟨1, 64, 0⟩ = some ⟨⟨"A"⟩, 0⟩ ∧
      s.links = [⟨⟨"A"⟩, ⟨"B"⟩, 2⟩, ⟨⟨"B"⟩, ⟨"C"⟩, 0⟩] := by
  intro line site ns s
  have ids : (ns.map Site.id).Nodup := by decide
  have laid : ∀ m ∈ ns, ∀ a ∈ m.anchors, a ∈ line := by decide +kernel
  have done : s.isDone = true := by decide +kernel
  exact ⟨outcome ids laid done, by decide +kernel, by decide +kernel⟩

end Territory

end Signalbox
