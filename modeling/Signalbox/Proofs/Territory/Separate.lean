import Signalbox.Proofs.Territory.Linkage

/-!
# Territory of separate sites

Sites that the track does not join leave each other alone.  When all sites that the track joins to a
kept one are kept as well, the kept sites own alone what they own among all, although the order in
which cells are settled and the origins that meet them on the way differ; and the links of the kept
sites are the links among all that end at them.

* `Territory.owns_iff`          : who owns a cell, from the layout alone;
* `Territory.mem_links_iff`     : what is a link, from the ways on which nodes touch;
* `Territory.owns_filter`       : what the kept sites own alone;
* `Territory.mem_links_filter`  : the links of the kept sites alone;
* `Territory.kept_iff_of_link`  : no link joins a kept site and another one.
-/

set_option autoImplicit false

namespace Signalbox

namespace Territory

variable {s : Territory} {t : Track} {ns : List Site} {keep : Site → Bool} {c d : Cell}
  {x y : NodeId} {m k : Site} {l : Link} {i j n : Nat}

/-! ## Owners and links by the layout -/

/-- A node owns a cell so many steps from its anchors. -/
def Owns (s : Territory) (x : NodeId) (c : Cell) (n : Nat) : Prop :=
  ∃ r, s.owners[c]? = some r ∧ r.origin.id = x ∧ r.distance = n

/-- A site gets to a cell in so many steps, no site does in fewer, and none of a lesser id in as
many. -/
structure FirstTo (t : Track) (ns : List Site) (m : Site) (c : Cell) (n : Nat) : Prop where
  mem : m ∈ ns
  reaches : m.Reaches t c n
  least : ∀ k ∈ ns, ∀ j, k.Reaches t c j → n ≤ j ∧ (n = j → m.id ≤ k.id)

theorem owns_iff (ids : (ns.map Site.id).Nodup) :
    (taken t ns).Owns x c n ↔ ∃ m, FirstTo t ns m c n ∧ m.id = x := by
  constructor
  · rintro ⟨r, hr, rfl, rfl⟩
    obtain ⟨m, hm, hid, hreach⟩ := reaches_of_owners ids hr
    refine ⟨m, ⟨hm, hreach, fun k hk j hj => ?_⟩, hid⟩
    obtain ⟨q, hq, hle, hfirst⟩ := owned_of_reaches ids hk hj
    rw [hr] at hq
    cases hq
    exact ⟨hle, fun he => hid ▸ hfirst he.symm⟩
  · rintro ⟨m, ⟨hm, hreach, least⟩, rfl⟩
    obtain ⟨r, hr, hle, hfirst⟩ := owned_of_reaches ids hm hreach
    obtain ⟨k, hk, hid, hk'⟩ := reaches_of_owners ids hr
    obtain ⟨hge, hback⟩ := least k hk _ hk'
    have he : n = r.distance := Nat.le_antisymm hge hle
    refine ⟨r, hr, ?_, he.symm⟩
    exact Ident.le_antisymm (hfirst he) (hid ▸ hback he)

theorem bordersOn_iff :
    s.BordersOn x y n ↔ ∃ c d i j, s.Owns x c i ∧ s.Owns y d j ∧ d ∈ s.track.neighbors c ∧
      n = i + 1 + j := by
  constructor
  · rintro ⟨c, r, d, q, hc, hd, hn, hx, hy, rfl⟩
    exact ⟨c, d, _, _, ⟨r, hc, hx, rfl⟩, ⟨q, hd, hy, rfl⟩, hn, rfl⟩
  · rintro ⟨c, d, _, _, ⟨r, hc, hx, rfl⟩, ⟨q, hd, hy, rfl⟩, hn, rfl⟩
    exact ⟨c, r, d, q, hc, hd, hn, hx, hy, rfl⟩

section

variable (ids : (ns.map Site.id).Nodup) (laid : ∀ m ∈ ns, ∀ a ∈ m.anchors, a ∈ t)
include ids laid

/-- A link joins two nodes in ascending order by the shortest way on which they touch. -/
theorem mem_links_iff :
    l ∈ (taken t ns).links ↔
      l.a < l.b ∧ IsLeast {n | TouchesOn ns (taken t ns) l.a l.b n} l.length := by
  have o := outcome_taken ids laid
  constructor
  · intro hl
    obtain ⟨touch, least⟩ := o.shortest l.a l.b l.length hl
    exact ⟨o.ascending l hl, touch, least⟩
  · rintro ⟨hlt, touch, least⟩
    obtain ⟨n, le, hn⟩ := exists_link_of_touchesOn ids laid hlt touch
    have he : n = l.length := Nat.le_antisymm le (least (o.shortest l.a l.b n hn).1)
    rwa [he] at hn

/-! ## Keeping separate sites -/

/-- The kept sites are separate from the others: no steps over the track lead from the ones to the
others. -/
def Separate (t : Track) (ns : List Site) (keep : Site → Bool) : Prop :=
  ∀ m ∈ ns, ∀ k ∈ ns, ∀ n, m.ReachesSite t k n → keep m = keep k

omit ids in
/-- Sites that get to the same cell are kept together. -/
theorem Separate.of_reaches (apart : Separate t ns keep) (hm : m ∈ ns) (hk : k ∈ ns)
    (hi : m.Reaches t c i) (hj : k.Reaches t c j) : keep m = keep k := by
  obtain ⟨a, ha, hac⟩ := hi
  obtain ⟨b, hb, hbc⟩ := hj
  exact apart m hm k hk (i + j) ⟨b, hb, a, ha, hac.trans (hbc.symm (laid k hk b hb))⟩

omit laid in
theorem nodup_kept : ((ns.filter keep).map Site.id).Nodup :=
  ids.sublist (List.filter_sublist.map Site.id)

omit laid in
theorem mem_kept_iff (hm : m ∈ ns) :
    m.id ∈ (ns.filter keep).map Site.id ↔ keep m = true := by
  constructor
  · intro h
    obtain ⟨k, hk, hid⟩ := List.mem_map.1 h
    obtain ⟨hkn, kept⟩ := List.mem_filter.1 hk
    rwa [← List.inj_on_of_nodup_map ids hkn hm hid]
  · exact fun kept => List.mem_map_of_mem (List.mem_filter.2 ⟨hm, kept⟩)

variable (apart : Separate t ns keep)
include apart

omit ids in
/-- A kept site is the first to get to a cell whether or not the others are there. -/
theorem firstTo_filter :
    FirstTo t (ns.filter keep) m c n ↔ FirstTo t ns m c n ∧ keep m = true := by
  constructor
  · rintro ⟨hm, hreach, least⟩
    obtain ⟨hmn, kept⟩ := List.mem_filter.1 hm
    refine ⟨⟨hmn, hreach, fun k hk j hj => ?_⟩, kept⟩
    have same : keep m = keep k := apart.of_reaches laid hmn hk hreach hj
    exact least k (List.mem_filter.2 ⟨hk, same ▸ kept⟩) j hj
  · rintro ⟨⟨hm, hreach, least⟩, kept⟩
    exact ⟨List.mem_filter.2 ⟨hm, kept⟩, hreach, fun k hk => least k (List.mem_filter.1 hk).1⟩

/-- **The kept sites own alone what they own among all.** -/
theorem owns_filter :
    (taken t (ns.filter keep)).Owns x c n ↔
      (taken t ns).Owns x c n ∧ x ∈ (ns.filter keep).map Site.id := by
  rw [owns_iff (nodup_kept ids), owns_iff ids]
  constructor
  · rintro ⟨m, hm, rfl⟩
    obtain ⟨first, kept⟩ := (firstTo_filter laid apart).1 hm
    exact ⟨⟨m, first, rfl⟩, (mem_kept_iff ids first.mem).2 kept⟩
  · rintro ⟨⟨m, first, rfl⟩, hx⟩
    have kept := (mem_kept_iff ids first.mem).1 hx
    exact ⟨m, (firstTo_filter laid apart).2 ⟨first, kept⟩, rfl⟩

theorem sharesAnchor_filter :
    SharesAnchor (ns.filter keep) x y ↔ SharesAnchor ns x y ∧
      x ∈ (ns.filter keep).map Site.id ∧ y ∈ (ns.filter keep).map Site.id := by
  constructor
  · rintro ⟨c, ⟨m, hm, rfl, hmc⟩, ⟨k, hk, rfl, hkc⟩, least⟩
    have mem {p : Site} (hp : p ∈ ns.filter keep) := (List.mem_filter.1 hp).1
    refine ⟨⟨c, ⟨m, mem hm, rfl, hmc⟩, ⟨k, mem hk, rfl, hkc⟩, fun p hp hpc => ?_⟩,
      List.mem_map_of_mem hk, List.mem_map_of_mem hm⟩
    have same : keep k = keep p :=
      apart.of_reaches laid (mem hk) hp ⟨c, hkc, .here⟩ ⟨c, hpc, .here⟩
    exact least p (List.mem_filter.2 ⟨hp, same ▸ (List.mem_filter.1 hk).2⟩) hpc
  · rintro ⟨⟨c, ⟨m, hm, rfl, hmc⟩, ⟨k, hk, rfl, hkc⟩, least⟩, hx, hy⟩
    refine ⟨c, ⟨m, ?_, rfl, hmc⟩, ⟨k, ?_, rfl, hkc⟩, fun p hp => least p (List.mem_filter.1 hp).1⟩
    · exact List.mem_filter.2 ⟨hm, (mem_kept_iff ids hm).1 hy⟩
    · exact List.mem_filter.2 ⟨hk, (mem_kept_iff ids hk).1 hx⟩

/-- Kept sites touch alone where they touch among all. -/
theorem touchesOn_filter :
    TouchesOn (ns.filter keep) (taken t (ns.filter keep)) x y n ↔ TouchesOn ns (taken t ns) x y n ∧
      x ∈ (ns.filter keep).map Site.id ∧ y ∈ (ns.filter keep).map Site.id := by
  unfold TouchesOn
  simp only [bordersOn_iff, track_taken, owns_filter ids laid apart,
    sharesAnchor_filter ids laid apart, or_and_right]
  refine or_congr (and_assoc.symm) ⟨?_, ?_⟩
  · rintro ⟨c, d, i, j, ⟨hc, hx⟩, ⟨hd, hy⟩, hn, he⟩
    exact ⟨⟨c, d, i, j, hc, hd, hn, he⟩, hx, hy⟩
  · rintro ⟨⟨c, d, i, j, hc, hd, hn, he⟩, hx, hy⟩
    exact ⟨c, d, i, j, ⟨hc, hx⟩, ⟨hd, hy⟩, hn, he⟩

/-- **The links of the kept sites alone** are the links among all sites that end at kept ones. -/
theorem mem_links_filter :
    l ∈ (taken t (ns.filter keep)).links ↔ l ∈ (taken t ns).links ∧
      l.a ∈ (ns.filter keep).map Site.id ∧ l.b ∈ (ns.filter keep).map Site.id := by
  have kept_laid : ∀ m ∈ ns.filter keep, ∀ a ∈ m.anchors, a ∈ t :=
    fun m hm => laid m (List.mem_filter.1 hm).1
  rw [mem_links_iff (nodup_kept ids) kept_laid, mem_links_iff ids laid]
  simp only [touchesOn_filter ids laid apart]
  constructor
  · rintro ⟨hlt, ⟨touch, ha, hb⟩, least⟩
    exact ⟨⟨hlt, touch, fun n hn => least ⟨hn, ha, hb⟩⟩, ha, hb⟩
  · rintro ⟨⟨hlt, touch, least⟩, ha, hb⟩
    exact ⟨hlt, ⟨touch, ha, hb⟩, fun n hn => least hn.1⟩

/-- **No link joins a kept site and another one.** -/
theorem kept_iff_of_link (hl : l ∈ (taken t ns).links) :
    l.a ∈ (ns.filter keep).map Site.id ↔ l.b ∈ (ns.filter keep).map Site.id := by
  obtain ⟨m, hm, k, hk, ha, hb, a, ham, b, hbk, hw⟩ := walk_of_joins ids laid (Or.inl hl)
  rw [← ha, ← hb, mem_kept_iff ids hm, mem_kept_iff ids hk,
    apart m hm k hk l.length ⟨b, hbk, a, ham, hw⟩]

end

end Territory

end Signalbox
