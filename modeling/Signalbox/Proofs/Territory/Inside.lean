import Mathlib.Order.Bounds.Basic
import Signalbox.Proofs.Territory.Sharing

/-!
# Links run inside two territories

A link is as long as the shortest walk between anchors of its ends that stays on cells of which one of
the two is the owner.  The anchor of a third node is never among these cells, so no link is shorter
than the shortest walk that comes to no third node.  It may be longer: a third node may stand beside
that walk and own some of it, and then the link goes round the territory of the third node.

* `Territory.Frontier.walkIn`              : an owner gets to its cells over cells of its own;
* `Territory.exists_link_of_inside`        : two nodes are linked no longer than a walk inside;
* `Territory.inside_of_touchesOn`          : where two nodes touch there is a walk inside;
* `Territory.mem_links_iff_isLeast_inside` : a link is the shortest walk inside;
* `Territory.links_run_inside`             : how the length of a link compares with that of the shortest
  walk that comes to no third node.
-/

set_option autoImplicit false

namespace Signalbox

/-! ## Walks between two sites -/

section

variable (t : Track) (ns : List Site) (m k : Site)

/-- Of all sites, one of two is the first to get to the cell. -/
def Site.EitherFirst (c : Cell) : Prop :=
  ∃ p n, Territory.FirstTo t ns p c n ∧ (p.id = m.id ∨ p.id = k.id)

/-- `n` steps lead from an anchor of one site to an anchor of the other, and at every cell on the way
one of the two is the first of all sites. -/
def Site.Inside (n : Nat) : Prop :=
  ∃ a ∈ m.anchors, ∃ b ∈ k.anchors, t.WalkIn (m.EitherFirst t ns k) a b n

/-- `n` steps lead from an anchor of one site to an anchor of the other, past no anchor of a third. -/
def Site.Direct (n : Nat) : Prop :=
  ∃ a ∈ m.anchors, ∃ b ∈ k.anchors, t.WalkIn (Site.NoThird ns m k) a b n

end

namespace Territory

variable {s : Territory} {t : Track} {ns : List Site} {a b c d : Cell} {r q : Reach} {m k : Site}
  {i j n : Nat}

/-! ## Cells of one owner -/

/-- An owner gets to its cells over cells of its own, in the number of steps noted there. -/
theorem Frontier.walkIn (h : Frontier s) (hr : s.owners[c]? = some r) :
    ∃ b, Origin.Anchored s.origins r.origin b ∧
      s.track.WalkIn (fun d => ∃ q, s.owners[d]? = some q ∧ q.origin = r.origin) b c r.distance := by
  obtain ⟨o, trail⟩ := r
  induction trail generalizing c with
  | nil => exact ⟨c, h.leads c _ (Or.inl hr), .here ⟨_, hr, rfl⟩⟩
  | cons p trail ih =>
    obtain ⟨hp, hc⟩ := h.leads c _ (Or.inl hr)
    obtain ⟨b, hb, hw⟩ := ih hp
    exact ⟨b, hb, .step hw hc ⟨_, hr, rfl⟩⟩

section

variable (ids : (ns.map Site.id).Nodup)
include ids

theorem eitherFirst_iff : m.EitherFirst t ns k c ↔
    ∃ r, (taken t ns).owners[c]? = some r ∧ (r.origin.id = m.id ∨ r.origin.id = k.id) := by
  constructor
  · rintro ⟨p, n, first, id⟩
    obtain ⟨r, hr, hid, -⟩ := (owns_iff ids).2 ⟨p, first, rfl⟩
    exact ⟨r, hr, hid ▸ id⟩
  · rintro ⟨r, hr, id⟩
    obtain ⟨p, first, hid⟩ := (owns_iff ids).1 ⟨r, hr, rfl, rfl⟩
    exact ⟨p, _, first, hid ▸ id⟩

theorem walkIn_of_owners (hm : m ∈ ns) (hr : (taken t ns).owners[c]? = some r)
    (id : r.origin.id = m.id) :
    ∃ a ∈ m.anchors, t.WalkIn
      (fun d => ∃ q, (taken t ns).owners[d]? = some q ∧ q.origin.id = m.id) a c r.distance := by
  obtain ⟨a, anchored, hw⟩ := (frontier_taken t ns).walkIn hr
  rw [origins_taken, Origin.anchored_ofNodes ids] at anchored
  obtain ⟨-, p, hp, hid, ha⟩ := anchored
  cases List.inj_on_of_nodup_map ids hp hm (hid.trans id)
  rw [track_taken] at hw
  exact ⟨a, ha, hw.mono fun d ⟨q, hq, same⟩ => ⟨q, hq, same ▸ id⟩⟩

variable (laid : ∀ m ∈ ns, ∀ a ∈ m.anchors, a ∈ t)
include laid

/-! ## From walks to links -/

/-- Where a walk inside leaves what the first node owns, the two nodes touch. -/
theorem owned_or_touchesOn (hm : m ∈ ns) (hk : k ∈ ns) (hlt : m.id < k.id) (ha : a ∈ m.anchors)
    (hb : b ∈ k.anchors) (hac : t.WalkIn (m.EitherFirst t ns k) a c i) (hcb : t.Walk c b j) :
    (∃ r, (taken t ns).owners[c]? = some r ∧ r.origin.id = m.id) ∨
      ∃ n ≤ i + j, TouchesOn ns (taken t ns) m.id k.id n := by
  have o := outcome_taken ids laid
  induction hac generalizing j with
  | here either =>
    obtain ⟨r, hr, -, shared⟩ := owner_of_anchor (t := t) ids hm ha
    obtain ⟨q, hq, id | id⟩ := (eitherFirst_iff ids).1 either
    · exact Or.inl ⟨q, hq, id⟩
    · -- the greater of the two does not own an anchor of the lesser
      rw [hr] at hq
      cases hq
      exact absurd hlt (Ident.not_lt.2 (id ▸ shared.le))
  | @step c d i hac hd either ih =>
    rcases ih ((Track.Walk.one hd).trans hcb) with ⟨r, hr, id⟩ | ⟨n, le, touch⟩
    · obtain ⟨q, hq, id' | id'⟩ := (eitherFirst_iff ids).1 either
      · exact Or.inl ⟨q, hq, id'⟩
      · have hdt : d ∈ t := Track.mem_of_mem_neighbors hd
        have near := (o.nearest c r hr m hm i ⟨a, ha, hac.walk⟩).1
        have near' := (o.nearest d q hq k hk j ⟨b, hb, hcb.symm hdt⟩).1
        refine Or.inr ⟨r.distance + 1 + q.distance, by omega, Or.inr ?_⟩
        exact ⟨c, r, d, q, hr, hq, by rwa [track_taken], id, id', rfl⟩
    · exact Or.inr ⟨n, by omega, touch⟩

/-- **Two nodes are linked no longer than a walk inside.** -/
theorem exists_link_of_inside (hm : m ∈ ns) (hk : k ∈ ns) (hlt : m.id < k.id)
    (h : m.Inside t ns k n) : ∃ l ≤ n, ⟨m.id, k.id, l⟩ ∈ (taken t ns).links := by
  have touches : ∃ l ≤ n, TouchesOn ns (taken t ns) m.id k.id l := by
    obtain ⟨a, ha, b, hb, hw⟩ := h
    rcases owned_or_touchesOn ids laid hm hk hlt ha hb hw .here with ⟨r, hr, id⟩ | touches
    · -- the first node owns the anchor where the walk ends, so the two share it
      obtain ⟨q, hq, -, shared⟩ := owner_of_anchor (t := t) ids hk hb
      rw [hr] at hq
      cases hq
      exact ⟨0, Nat.zero_le _, Or.inl ⟨rfl, id ▸ shared⟩⟩
    · exact touches
  obtain ⟨l, le, touch⟩ := touches
  obtain ⟨l', le', hl'⟩ := exists_link_of_touchesOn ids laid hlt touch
  exact ⟨l', Nat.le_trans le' le, hl'⟩

/-! ## From links to walks -/

/-- **Where two nodes touch there is a walk inside** of as many steps. -/
theorem inside_of_touchesOn (hm : m ∈ ns) (hk : k ∈ ns)
    (h : TouchesOn ns (taken t ns) m.id k.id n) : m.Inside t ns k n := by
  rcases h with ⟨rfl, c, ⟨p, hp, hpk, hcp⟩, ⟨q, hq, hqm, hcq⟩, least⟩ |
    ⟨c, r, d, q, hc, hd, hn, idM, idK, rfl⟩
  · cases List.inj_on_of_nodup_map ids hp hk hpk
    cases List.inj_on_of_nodup_map ids hq hm hqm
    have first : FirstTo t ns m c 0 := by
      refine ⟨hm, ⟨c, hcq, .here⟩, fun p hp j hj => ⟨Nat.zero_le _, ?_⟩⟩
      rintro rfl
      obtain ⟨a, ha, hw⟩ := hj
      exact least p hp (hw.eq_of_zero ▸ ha)
    exact ⟨c, hcq, c, hcp, .here ⟨m, 0, first, Or.inl rfl⟩⟩
  · obtain ⟨a, ha, hac⟩ := walkIn_of_owners ids hm hc idM
    obtain ⟨b, hb, hbd⟩ := walkIn_of_owners ids hk hd idK
    rw [track_taken] at hn
    have first := hac.mono (Q := m.EitherFirst t ns k) fun e ⟨p, hp, id⟩ =>
      (eitherFirst_iff ids).2 ⟨p, hp, Or.inl id⟩
    have second := hbd.mono (Q := m.EitherFirst t ns k) fun e ⟨p, hp, id⟩ =>
      (eitherFirst_iff ids).2 ⟨p, hp, Or.inr id⟩
    exact ⟨a, ha, b, hb, (first.step hn second.last).trans (second.symm (laid k hk b hb))⟩

/-- **A link is the shortest walk inside.** -/
theorem mem_links_iff_isLeast_inside (hm : m ∈ ns) (hk : k ∈ ns) (hlt : m.id < k.id) :
    ⟨m.id, k.id, n⟩ ∈ (taken t ns).links ↔ IsLeast {n | m.Inside t ns k n} n := by
  have fits {l : Nat} (hl : ⟨m.id, k.id, l⟩ ∈ (taken t ns).links) :
      IsLeast {n | m.Inside t ns k n} l := by
    obtain ⟨-, touch, least⟩ := (mem_links_iff ids laid).1 hl
    refine ⟨inside_of_touchesOn ids laid hm hk touch, fun i inside => ?_⟩
    obtain ⟨l', le, hl'⟩ := exists_link_of_inside ids laid hm hk hlt inside
    exact Nat.le_trans (least ((mem_links_iff ids laid).1 hl').2.1) le
  refine ⟨fits, fun least => ?_⟩
  obtain ⟨l, -, hl⟩ := exists_link_of_inside ids laid hm hk hlt least.1
  rwa [least.unique (fits hl)]

end

/-! ## Third nodes -/

/-- A walk inside comes to no anchor of a third node, where no two nodes share an anchor. -/
theorem direct_of_inside
    (apart : ∀ m ∈ ns, ∀ k ∈ ns, ∀ c ∈ m.anchors, c ∈ k.anchors → m.id = k.id)
    (h : m.Inside t ns k n) : m.Direct t ns k n := by
  obtain ⟨a, ha, b, hb, hw⟩ := h
  refine ⟨a, ha, b, hb, hw.mono fun c ⟨p, n, first, id⟩ third hthird hc => ?_⟩
  have near : n = 0 := Nat.le_zero.1 (first.least third hthird 0 ⟨c, hc, .here⟩).1
  obtain ⟨e, he, hec⟩ := first.reaches
  rw [near] at hec
  rwa [apart third hthird p first.mem c hc (hec.eq_of_zero ▸ he)]

/-- **Links run inside the territories of their ends**, whatever the schedule that finishes them.  For
nodes of distinct ids with laid anchors, of which no two are shared, the length of a link is the least
number of steps of a walk between its ends on which one of the two is the first to get to every cell.
Such a walk comes to no third node.  So a link is as long as the shortest walk that comes to no third
node exactly if one of the shortest is a walk inside. -/
theorem links_run_inside (ids : (ns.map Site.id).Nodup) (laid : ∀ m ∈ ns, ∀ a ∈ m.anchors, a ∈ t)
    (apart : ∀ m ∈ ns, ∀ k ∈ ns, ∀ c ∈ m.anchors, c ∈ k.anchors → m.id = k.id)
    {bs : List Allowance} (done : (Stepwise.after bs (start t ns)).isDone = true) :
    ∀ l ∈ (Stepwise.after bs (start t ns)).links, ∃ m ∈ ns, ∃ k ∈ ns, m.id = l.a ∧ k.id = l.b ∧
      IsLeast {n | m.Inside t ns k n} l.length ∧
      (∀ n, m.Inside t ns k n → m.Direct t ns k n) ∧
      (IsLeast {n | m.Direct t ns k n} l.length ↔
        ∃ n, IsLeast {n | m.Direct t ns k n} n ∧ m.Inside t ns k n) := by
  rw [Stepwise.after_eq_finished done]
  intro l hl
  obtain ⟨m, hm, k, hk, hmid, hkid, -⟩ := walk_of_joins ids laid (Or.inl hl)
  have hlt : m.id < k.id := hmid ▸ hkid ▸ (outcome_taken ids laid).ascending l hl
  have least : IsLeast {n | m.Inside t ns k n} l.length := by
    rw [← mem_links_iff_isLeast_inside ids laid hm hk hlt, hmid, hkid]
    exact hl
  refine ⟨m, hm, k, hk, hmid, hkid, least, fun n => direct_of_inside apart, ?_⟩
  constructor
  · exact fun shortest => ⟨l.length, shortest, least.1⟩
  · rintro ⟨n, shortest, inside⟩
    have same : l.length = n :=
      Nat.le_antisymm (least.2 inside) (shortest.2 (direct_of_inside apart least.1))
    rwa [same]

/-- A station beside the middle of a line, which owns that middle: the walk of two steps over it is the
shortest inside the territories of that station and the one at an end. -/
theorem links_run_inside_spur :
    let track := [⟨0, 64, 0⟩, ⟨1, 64, 0⟩, ⟨2, 64, 0⟩, ⟨1, 64, 1⟩].foldl Track.insert .empty
    let site (name : String) (c : Cell) : Site := ⟨⟨⟨name⟩, .station, c, none, none⟩, [c]⟩
    let ns := [site "A" ⟨1, 64, 1⟩, site "B" ⟨0, 64, 0⟩, site "C" ⟨2, 64, 0⟩]
    ∃ m ∈ ns, ∃ k ∈ ns, m.id = ⟨"A"⟩ ∧ k.id = ⟨"B"⟩ ∧ IsLeast {n | m.Inside track ns k n} 2 := by
  intro track site ns
  have ids : (ns.map Site.id).Nodup := by decide
  have laid : ∀ m ∈ ns, ∀ a ∈ m.anchors, a ∈ track := by decide +kernel
  have apart : ∀ m ∈ ns, ∀ k ∈ ns, ∀ c ∈ m.anchors, c ∈ k.anchors → m.id = k.id := by decide +kernel
  have done : (Stepwise.after [.units 2, .units 100] (start track ns)).isDone = true := by
    decide +kernel
  have link : ⟨⟨"A"⟩, ⟨"B"⟩, 2⟩ ∈ (Stepwise.after [.units 2, .units 100] (start track ns)).links := by
    decide +kernel
  obtain ⟨m, hm, k, hk, hmid, hkid, least, -⟩ := links_run_inside ids laid apart done _ link
  exact ⟨m, hm, k, hk, hmid, hkid, least⟩

/-- With a way round between the ends of that line, these are linked by the way round, six steps long,
since the line itself leads through territory of the station beside its middle.  Yet no third node
stands on the line, and it is two steps long. -/
theorem link_goes_round_third_node :
    let track := [⟨0, 64, 0⟩, ⟨1, 64, 0⟩, ⟨2, 64, 0⟩, ⟨1, 64, 1⟩, ⟨0, 64, -1⟩, ⟨0, 64, -2⟩,
      ⟨1, 64, -2⟩, ⟨2, 64, -2⟩, ⟨2, 64, -1⟩].foldl Track.insert .empty
    let site (name : String) (c : Cell) : Site := ⟨⟨⟨name⟩, .station, c, none, none⟩, [c]⟩
    let b := site "B" ⟨0, 64, 0⟩
    let c := site "C" ⟨2, 64, 0⟩
    let ns := [site "A" ⟨1, 64, 1⟩, b, c]
    let s := Stepwise.after [.units 100] (start track ns)
    ((ns.map Site.id).Nodup ∧ (∀ m ∈ ns, ∀ a ∈ m.anchors, a ∈ track) ∧
      (∀ m ∈ ns, ∀ k ∈ ns, ∀ c ∈ m.anchors, c ∈ k.anchors → m.id = k.id) ∧ s.isDone = true) ∧
    ⟨b.id, c.id, 6⟩ ∈ s.links ∧ b.Direct track ns c 2 ∧
      ¬ IsLeast {n | b.Direct track ns c n} 6 := by
  intro track site b c ns s
  have clear (x : Int32) (on : x = 0 ∨ x = 1 ∨ x = 2) : Site.NoThird ns b c ⟨x, 64, 0⟩ := by
    unfold Site.NoThird
    rcases on with rfl | rfl | rfl <;> decide +kernel
  have start : track.WalkIn (Site.NoThird ns b c) ⟨0, 64, 0⟩ ⟨0, 64, 0⟩ 0 := .here (clear 0 (by simp))
  have middle := start.step (d := ⟨1, 64, 0⟩) (by decide +kernel) (clear 1 (by simp))
  have along := middle.step (d := ⟨2, 64, 0⟩) (by decide +kernel) (clear 2 (by simp))
  have direct : b.Direct track ns c 2 :=
    ⟨_, List.mem_singleton_self _, _, List.mem_singleton_self _, along⟩
  refine ⟨by decide +kernel, by decide +kernel, direct, fun least => ?_⟩
  have longer : 6 ≤ 2 := least.2 direct
  exact absurd longer (by decide)

end Territory

end Signalbox
