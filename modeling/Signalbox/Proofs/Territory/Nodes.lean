import Signalbox.Proofs.Territory.Contacts

/-!
# Origins of distinct nodes

Where no two nodes share an id, an origin is as good as the id of its node: it is labelled without a
copy, it has the anchors of that node, and origins are ordered as the ids are.

* `Origin.anchored_ofNodes` : the anchors of an origin are those of the node of that id;
* `Origin.firstAt_ofNodes`  : the first origin of a cell is the least id anchored there;
* `Territory.arrives_start` : an origin gets where steps lead from the anchors of its node.
-/

set_option autoImplicit false

namespace Signalbox

/-- `n` steps lead from an anchor of the site to the cell. -/
def Site.Reaches (t : Track) (m : Site) (c : Cell) (n : Nat) : Prop := ∃ a ∈ m.anchors, t.Walk a c n

namespace Origin

variable {ns : List Site} {o : Origin} {c : Cell} {x y : NodeId}

/-! ## Labels -/

theorem labelAfter_eq {earlier : List NodeId} (ids : (ns.map Site.id).Nodup)
    (new : ∀ m ∈ ns, m.id ∉ earlier) :
    labelAfter earlier ns = ns.map fun m => (⟨m.id, 0⟩, m.anchors) := by
  induction ns generalizing earlier with
  | nil => rfl
  | cons m ns ih =>
    rw [List.map_cons, List.nodup_cons] at ids
    have fresh : earlier.count m.id = 0 := List.count_eq_zero.2 (new m (List.mem_cons_self ..))
    have later : ∀ k ∈ ns, k.id ∉ m.id :: earlier := by
      intro k hk hmem
      rcases List.mem_cons.1 hmem with he | hmem
      · exact ids.1 (he ▸ List.mem_map_of_mem hk)
      · exact new k (List.mem_cons_of_mem _ hk) hmem
    rw [labelAfter, fresh, ih ids.2 later, List.map_cons]

theorem getElem?_ofNodes (ids : (ns.map Site.id).Nodup) {cs : List Cell} :
    (ofNodes ns)[o]? = some cs ↔
      o.copy = 0 ∧ ∃ m ∈ ns, m.id = o.id ∧ m.anchors = cs ∧ cs ≠ [] := by
  let kept := ns.filter fun m => !m.anchors.isEmpty
  have kids : (kept.map Site.id).Nodup := ids.sublist (List.filter_sublist.map _)
  have labels : labelAfter [] kept = kept.map fun m => (⟨m.id, 0⟩, m.anchors) :=
    labelAfter_eq kids (by simp)
  have distinct : (labelAfter [] kept).Pairwise fun a b => ¬ compare a.1 b.1 = .eq := by
    rw [labels, List.pairwise_map]
    refine (List.pairwise_map.1 kids).imp fun {m k} hne hc => hne ?_
    exact congrArg Origin.id (Std.LawfulEqOrd.eq_of_compare hc)
  have lookup : (ofNodes ns)[o]? = some cs ↔ (o, cs) ∈ labelAfter [] kept := by
    constructor
    · intro h
      have mem : o ∈ ofNodes ns := mem_iff_lookup.2 ⟨cs, h⟩
      rw [ofNodes, Std.ExtTreeMap.mem_ofList, List.contains_iff_mem, List.mem_map] at mem
      obtain ⟨⟨p, ds⟩, hp, rfl⟩ := mem
      have found : (ofNodes ns)[p]? = some ds :=
        Std.ExtTreeMap.getElem?_ofList_of_mem Std.ReflOrd.compare_self distinct hp
      rw [found] at h
      cases h
      exact hp
    · exact Std.ExtTreeMap.getElem?_ofList_of_mem Std.ReflOrd.compare_self distinct
  rw [lookup, labels, List.mem_map]
  constructor
  · rintro ⟨m, hm, he⟩
    cases he
    obtain ⟨hmem, hne⟩ := List.mem_filter.1 hm
    exact ⟨rfl, m, hmem, rfl, rfl, by simpa using hne⟩
  · rintro ⟨hz, m, hm, hid, rfl, hne⟩
    refine ⟨m, List.mem_filter.2 ⟨hm, by simpa using hne⟩, ?_⟩
    obtain ⟨i, n⟩ := o
    cases hz
    cases hid
    rfl

/-- **The anchors of an origin are those of the node of that id.** -/
theorem anchored_ofNodes (ids : (ns.map Site.id).Nodup) :
    Anchored (ofNodes ns) o c ↔ o.copy = 0 ∧ ∃ m ∈ ns, m.id = o.id ∧ c ∈ m.anchors := by
  unfold Anchored
  simp only [getElem?_ofNodes ids]
  constructor
  · rintro ⟨cs, ⟨hz, m, hm, hid, rfl, -⟩, hc⟩
    exact ⟨hz, m, hm, hid, hc⟩
  · rintro ⟨hz, m, hm, hid, hc⟩
    exact ⟨m.anchors, ⟨hz, m, hm, hid, rfl, List.ne_nil_of_mem hc⟩, hc⟩

/-! ## Order -/

theorem compare_of_copy_zero {p : Origin} (ho : o.copy = 0) (hp : p.copy = 0) :
    compare o p = compare o.id p.id := by
  rw [compare_def, ho, hp, Std.ReflOrd.compare_self (a := 0), Ordering.then_eq]

theorem isLE_compare_of_copy_zero {p : Origin} (ho : o.copy = 0) (hp : p.copy = 0) :
    (compare o p).isLE = true ↔ o.id ≤ p.id := by
  rw [compare_of_copy_zero ho hp, Ident.isLE_compare]

theorem Pair.of_ordered {o p : Origin} (hne : o ≠ p) :
    compare (Pair.of o p).a (Pair.of o p).b = .lt := by
  unfold of
  cases h : compare o p with
  | lt => simpa using h
  | eq => exact absurd (Std.LawfulEqOrd.eq_of_compare h) hne
  | gt => simpa using Std.OrientedCmp.lt_of_gt h

/-- The pair of two origins of different nodes is in the order of their ids. -/
theorem Pair.of_eq_iff {o p : Origin} (ho : o.copy = 0) (hp : p.copy = 0) (hlt : x < y) :
    (⟨⟨x, 0⟩, ⟨y, 0⟩⟩ : Pair) = .of o p ↔ (o.id = x ∧ p.id = y) ∨ (o.id = y ∧ p.id = x) := by
  obtain ⟨i, m⟩ := o
  obtain ⟨j, n⟩ := p
  cases ho
  cases hp
  unfold of
  rw [compare_of_copy_zero rfl rfl]
  obtain ⟨hle, hne⟩ := Ident.lt_iff_le_and_ne.1 hlt
  by_cases hc : compare i j = .gt
  · have back : j < i := Ident.compare_eq_lt.1 (Std.OrientedCmp.lt_of_gt hc)
    rw [if_pos hc]
    simp only [Pair.mk.injEq, Origin.mk.injEq, and_true]
    constructor
    · rintro ⟨rfl, rfl⟩
      exact Or.inr ⟨rfl, rfl⟩
    · rintro (⟨rfl, rfl⟩ | ⟨rfl, rfl⟩)
      · exact absurd back (Ident.not_lt.2 hle)
      · exact ⟨rfl, rfl⟩
  · have fore : i ≤ j := by
      rw [← Ident.isLE_compare]
      cases h : compare i j <;> simp_all
    rw [if_neg hc]
    simp only [Pair.mk.injEq, Origin.mk.injEq, and_true]
    constructor
    · rintro ⟨rfl, rfl⟩
      exact Or.inl ⟨rfl, rfl⟩
    · rintro (⟨rfl, rfl⟩ | ⟨rfl, rfl⟩)
      · exact ⟨rfl, rfl⟩
      · exact absurd (Ident.le_antisymm hle fore) hne

/-- Two origins that are no copies make a pair of two nodes, in ascending order. -/
theorem Pair.of_copy_zero {o p : Origin} (ho : o.copy = 0) (hp : p.copy = 0) (hne : o ≠ p) :
    ∃ x y, x < y ∧ Pair.of o p = ⟨⟨x, 0⟩, ⟨y, 0⟩⟩ := by
  have ordered := Pair.of_ordered hne
  obtain ⟨i, _⟩ := o
  obtain ⟨j, _⟩ := p
  cases ho
  cases hp
  unfold of at ordered ⊢
  by_cases hc : compare (⟨i, 0⟩ : Origin) ⟨j, 0⟩ = .gt
  · rw [if_pos hc] at ordered ⊢
    rw [compare_of_copy_zero rfl rfl, Ident.compare_eq_lt] at ordered
    exact ⟨j, i, ordered, rfl⟩
  · rw [if_neg hc] at ordered ⊢
    rw [compare_of_copy_zero rfl rfl, Ident.compare_eq_lt] at ordered
    exact ⟨i, j, ordered, rfl⟩

/-- **The first origin of a cell is the least id anchored there.** -/
theorem firstAt_ofNodes (ids : (ns.map Site.id).Nodup) :
    FirstAt (ofNodes ns) o c ↔ o.copy = 0 ∧ (∃ m ∈ ns, m.id = o.id ∧ c ∈ m.anchors) ∧
      ∀ m ∈ ns, c ∈ m.anchors → o.id ≤ m.id := by
  unfold FirstAt
  simp only [anchored_ofNodes ids, and_assoc]
  refine and_congr_right fun hz => and_congr_right fun _ => ⟨?_, ?_⟩
  · intro h m hm hc
    exact (isLE_compare_of_copy_zero hz rfl).1 (h ⟨m.id, 0⟩ ⟨rfl, m, hm, rfl, hc⟩)
  · rintro h p ⟨hp, m, hm, hid, hc⟩
    exact (isLE_compare_of_copy_zero hz hp).2 (hid ▸ h m hm hc)

end Origin

namespace Territory

variable {t : Track} {ns : List Site} {c : Cell} {a : Rank}

theorem laid_start (ids : (ns.map Site.id).Nodup) (laid : ∀ m ∈ ns, ∀ a ∈ m.anchors, a ∈ t) :
    Laid (start t ns) := by
  intro o c hc
  rw [origins_start, Origin.anchored_ofNodes ids] at hc
  rw [track_start]
  obtain ⟨-, m, hm, -, hmem⟩ := hc
  exact laid m hm c hmem

theorem laid_taken (ids : (ns.map Site.id).Nodup) (laid : ∀ m ∈ ns, ∀ a ∈ m.anchors, a ∈ t) :
    Laid (taken t ns) := by
  have before := laid_start ids laid
  unfold Laid at before ⊢
  rw [track_taken, origins_taken]
  rwa [track_start, origins_start] at before

/-- **An origin gets where steps lead from the anchors of its node.** -/
theorem arrives_start (ids : (ns.map Site.id).Nodup) :
    (taken t ns).Arrives a c ↔
      a.origin.copy = 0 ∧ ∃ m ∈ ns, m.id = a.origin.id ∧ m.Reaches t c a.steps := by
  unfold Arrives Site.Reaches
  simp only [track_taken, origins_taken, Origin.anchored_ofNodes ids]
  constructor
  · rintro ⟨b, ⟨hz, m, hm, hid, hb⟩, hw⟩
    exact ⟨hz, m, hm, hid, b, hb, hw⟩
  · rintro ⟨hz, m, hm, hid, b, hb, hw⟩
    exact ⟨b, ⟨hz, m, hm, hid, hb⟩, hw⟩

end Territory

end Signalbox
