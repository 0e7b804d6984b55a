import Signalbox.Proofs.Territory.Unit

/-!
# Planting anchors

Before the first unit of work every anchor waits for its turn, in the order of the origins.  An
anchor that several origins share waits for the first of them only, and connects all the others to
that one at no distance.

* `Territory.planted_plant`  : what planting anchor after anchor comes to;
* `Territory.mem_queue_start`, `Territory.sorted_start` : what waits before the first unit;
* `Territory.least_start`    : the contacts before the first unit.
-/

set_option autoImplicit false

namespace Signalbox

namespace Origin

variable {os : Std.ExtTreeMap Origin (List Cell)} {o p : Origin} {c : Cell}

/-- The cell is an anchor of the origin. -/
def Anchored (os : Std.ExtTreeMap Origin (List Cell)) (o : Origin) (c : Cell) : Prop :=
  ∃ cs, os[o]? = some cs ∧ c ∈ cs

/-- The origin is the first of those that have the cell as an anchor. -/
def FirstAt (os : Std.ExtTreeMap Origin (List Cell)) (o : Origin) (c : Cell) : Prop :=
  Anchored os o c ∧ ∀ p, Anchored os p c → (compare o p).isLE = true

theorem mem_anchors : (o, c) ∈ anchors os ↔ Anchored os o c := by
  unfold anchors Anchored
  simp only [List.mem_flatMap, List.mem_map, Prod.exists,
    Std.ExtTreeMap.mem_toList_iff_getElem?_eq_some]
  constructor
  · rintro ⟨p, cs, hp, d, hd, he⟩
    cases he
    exact ⟨cs, hp, hd⟩
  · rintro ⟨cs, hp, hc⟩
    exact ⟨o, cs, hp, c, hc, rfl⟩

theorem sorted_anchors : (anchors os).Pairwise fun a b => (compare a.1 b.1).isLE = true := by
  refine List.pairwise_flatMap.2 ⟨fun ⟨o, cs⟩ _ => ?_, ?_⟩
  · refine List.pairwise_map.2 (List.pairwise_of_forall fun c d => ?_)
    simp
  · apply Std.ExtTreeMap.ordered_keys_toList.imp
    intro a b hab x hx y hy
    obtain ⟨c, -, rfl⟩ := List.mem_map.1 hx
    obtain ⟨d, -, rfl⟩ := List.mem_map.1 hy
    show (compare a.1 b.1).isLE = true
    rw [hab]
    rfl

end Origin

namespace Territory

/-! ## Anchor after anchor -/

/-- What planting has come to when the anchors of `done` have had their turn. -/
structure Planted (done : List (Origin × Cell)) (claimed : Std.ExtTreeMap Cell Origin)
    (s : Territory) : Prop where
  /-- A claimed anchor belongs to the first of its origins. -/
  first : ∀ c p, claimed[c]? = some p →
    (p, c) ∈ done ∧ ∀ o, (o, c) ∈ done → (compare p o).isLE = true
  /-- Every anchor is claimed. -/
  claims : ∀ o c, (o, c) ∈ done → ∃ p, claimed[c]? = some p
  /-- An anchor waits for the origin that claims it. -/
  waiting : ∀ e, e ∈ s.queue.toList ↔ claimed[e.1]? = some e.2.origin ∧ e.2.trail = []
  sorted : s.queue.toList.Pairwise fun e f => (compare e.2.origin f.2.origin).isLE = true
  contacts : ∀ k, Least (fun n => n = 0 ∧ ∃ c p o, claimed[c]? = some p ∧ (o, c) ∈ done ∧ p ≠ o ∧
      k = Origin.Pair.of p o) s.contacts[k]?

variable {done : List (Origin × Cell)} {claimed : Std.ExtTreeMap Cell Origin} {s : Territory}
  {o p : Origin} {c : Cell}

theorem Planted.enqueue (h : Planted done claimed s) (hc : claimed[c]? = none)
    (last : ∀ a ∈ done, (compare a.1 o).isLE = true) :
    Planted (done ++ [(o, c)]) (claimed.insert c o) (s.enqueue c ⟨o, []⟩) := by
  have fresh (q : Origin) : (q, c) ∉ done := fun hq => by
    obtain ⟨p, hp⟩ := h.claims q c hq
    rw [hc] at hp
    cases hp
  refine ⟨?first, ?claims, ?waiting, ?sorted, ?contacts⟩
  case first =>
    intro d p hp
    rw [lookup_insert] at hp
    by_cases hd : c = d
    · subst hd
      rw [if_pos rfl] at hp
      cases hp
      refine ⟨by simp, fun q hq => ?_⟩
      rcases List.mem_append.1 hq with hq | hq
      · exact absurd hq (fresh q)
      · cases List.mem_singleton.1 hq
        simp
    · rw [if_neg hd] at hp
      obtain ⟨hmem, hle⟩ := h.first d p hp
      refine ⟨List.mem_append_left _ hmem, fun q hq => ?_⟩
      rcases List.mem_append.1 hq with hq | hq
      · exact hle q hq
      · cases List.mem_singleton.1 hq
        exact absurd rfl hd
  case claims =>
    intro q d hq
    rw [lookup_insert]
    by_cases hd : c = d
    · exact ⟨o, if_pos hd⟩
    · rw [if_neg hd]
      rcases List.mem_append.1 hq with hq | hq
      · exact h.claims q d hq
      · cases List.mem_singleton.1 hq
        exact absurd rfl hd
  case waiting =>
    rintro ⟨d, ⟨q, trail⟩⟩
    show (d, _) ∈ (s.queue.push (c, _)).toList ↔ _
    rw [Queue.toList_push, List.mem_append, h.waiting, lookup_insert]
    by_cases hd : c = d
    · subst hd
      simp [hc, eq_comm]
    · simp [hd, Ne.symm hd]
  case sorted =>
    show (s.queue.push (c, _)).toList.Pairwise _
    rw [Queue.toList_push, List.pairwise_append]
    refine ⟨h.sorted, List.pairwise_singleton _ _, fun e he f hf => ?_⟩
    obtain ⟨hclaim, -⟩ := (h.waiting e).1 he
    rw [List.mem_singleton.1 hf]
    exact last (e.2.origin, e.1) (h.first e.1 e.2.origin hclaim).1
  case contacts =>
    intro k
    refine (h.contacts k).congr fun n => and_congr_right fun _ => ?_
    refine exists_congr fun d => exists_congr fun p => exists_congr fun q => ?_
    rw [lookup_insert, List.mem_append, List.mem_singleton]
    by_cases hd : c = d
    · subst hd
      simp only [hc, if_true, fresh q, false_or, Option.some.injEq, reduceCtorEq, false_and,
        false_iff, Prod.mk.injEq, and_true]
      rintro ⟨rfl, rfl, hne, -⟩
      exact hne rfl
    · simp only [if_neg hd, Prod.mk.injEq, Ne.symm hd, and_false, or_false]

theorem Planted.share (h : Planted done claimed s) (hc : claimed[c]? = some p)
    (last : ∀ a ∈ done, (compare a.1 o).isLE = true) :
    Planted (done ++ [(o, c)]) claimed (if p = o then s else s.connect p o 0) := by
  have queue : (if p = o then s else s.connect p o 0).queue = s.queue := by
    split <;> rfl
  refine ⟨?first, ?claims, ?waiting, ?sorted, ?contacts⟩
  case first =>
    intro d q hq
    obtain ⟨hmem, hle⟩ := h.first d q hq
    refine ⟨List.mem_append_left _ hmem, fun x hx => ?_⟩
    rcases List.mem_append.1 hx with hx | hx
    · exact hle x hx
    · cases List.mem_singleton.1 hx
      exact last (q, _) hmem
  case claims =>
    intro q d hq
    rcases List.mem_append.1 hq with hq | hq
    · exact h.claims q d hq
    · cases List.mem_singleton.1 hq
      exact ⟨p, hc⟩
  case waiting =>
    rw [queue]
    exact h.waiting
  case sorted =>
    rw [queue]
    exact h.sorted
  case contacts =>
    intro k
    have more (n : Nat) :
        (n = 0 ∧ ∃ d q x, claimed[d]? = some q ∧ (x, d) ∈ done ++ [(o, c)] ∧ q ≠ x ∧
            k = Origin.Pair.of q x) ↔
          (n = 0 ∧ ∃ d q x, claimed[d]? = some q ∧ (x, d) ∈ done ∧ q ≠ x ∧ k = Origin.Pair.of q x) ∨
            (n = 0 ∧ p ≠ o ∧ k = Origin.Pair.of p o) := by
      rw [← and_or_left]
      refine and_congr_right fun _ => ⟨?_, ?_⟩
      · rintro ⟨d, q, x, hq, hx, hne, hk⟩
        rcases List.mem_append.1 hx with hx | hx
        · exact Or.inl ⟨d, q, x, hq, hx, hne, hk⟩
        · cases List.mem_singleton.1 hx
          rw [hc] at hq
          cases hq
          exact Or.inr ⟨hne, hk⟩
      · rintro (⟨d, q, x, hq, hx, hne, hk⟩ | ⟨hne, hk⟩)
        · exact ⟨d, q, x, hq, List.mem_append_left _ hx, hne, hk⟩
        · exact ⟨c, p, o, hc, by simp, hne, hk⟩
    by_cases hp : p = o
    · rw [if_pos hp]
      apply (h.contacts k).congr
      intro n
      rw [more]
      simp [hp]
    · rw [if_neg hp]
      apply (least_connect (h.contacts k) p o 0).congr
      intro n
      rw [more]
      simp [hp, and_comm]

/-- Planting more anchors, none of an earlier origin. -/
theorem planted_plant {later : List (Origin × Cell)} (h : Planted done claimed s)
    (sorted : (done ++ later).Pairwise fun a b => (compare a.1 b.1).isLE = true) :
    ∃ claimed', Planted (done ++ later) claimed' (s.plant claimed later) := by
  induction later generalizing done claimed s with
  | nil => exact ⟨claimed, by simpa [plant] using h⟩
  | cons a later ih =>
    obtain ⟨o, c⟩ := a
    have last : ∀ a ∈ done, (compare a.1 o).isLE = true := fun a ha =>
      (List.pairwise_append.1 sorted).2.2 a ha (o, c) (List.mem_cons_self ..)
    have split : done ++ (o, c) :: later = done ++ [(o, c)] ++ later := by simp
    rw [split] at sorted ⊢
    unfold plant
    cases hc : claimed[c]? with
    | none => exact ih (h.enqueue hc last) sorted
    | some p => exact ih (h.share hc last) sorted

/-- Planting lets cells wait and makes contacts, and does nothing else. -/
theorem plant_frame (s : Territory) (claimed : Std.ExtTreeMap Cell Origin)
    (later : List (Origin × Cell)) :
    (s.plant claimed later).track = s.track ∧ (s.plant claimed later).origins = s.origins ∧
      (s.plant claimed later).owners = s.owners := by
  induction later generalizing s claimed with
  | nil => exact ⟨rfl, rfl, rfl⟩
  | cons a later ih =>
    obtain ⟨o, c⟩ := a
    unfold plant
    cases claimed[c]? with
    | none => exact ih _ _
    | some p =>
      by_cases hp : p = o
      · simp only [if_pos hp]
        exact ih _ _
      · simp only [if_neg hp]
        exact ih _ _

theorem nodup_plant {later : List (Origin × Cell)} (nodup : (s.queue.toList.map Prod.fst).Nodup)
    (known : ∀ e ∈ s.queue.toList, e.1 ∈ claimed) :
    ((s.plant claimed later).queue.toList.map Prod.fst).Nodup := by
  induction later generalizing s claimed with
  | nil => exact nodup
  | cons a later ih =>
    obtain ⟨o, c⟩ := a
    unfold plant
    cases hc : claimed[c]? with
    | none =>
      have fresh : c ∉ s.queue.toList.map Prod.fst := by
        intro hmem
        obtain ⟨e, he, rfl⟩ := List.mem_map.1 hmem
        obtain ⟨p, hp⟩ := mem_iff_lookup.1 (known e he)
        rw [hc] at hp
        cases hp
      apply ih
      · show ((s.queue.push (c, _)).toList.map Prod.fst).Nodup
        rw [Queue.toList_push, List.map_append, List.nodup_append]
        refine ⟨nodup, List.pairwise_singleton _ _, fun d hd e he => ?_⟩
        rw [List.mem_singleton.1 he]
        rintro rfl
        exact fresh hd
      · intro e he
        have he : e ∈ (s.queue.push (c, _)).toList := he
        rw [Queue.toList_push, List.mem_append, List.mem_singleton] at he
        rw [Std.ExtTreeMap.mem_insert, Std.compare_eq_iff_eq]
        rcases he with he | rfl
        · exact Or.inr (known e he)
        · exact Or.inl rfl
    | some p =>
      by_cases hp : p = o
      · simp only [if_pos hp]
        exact ih nodup known
      · simp only [if_neg hp]
        exact ih nodup known

/-! ## Before the first unit -/

variable (t : Track) (ns : List Site)

@[simp] theorem track_start : (start t ns).track = t := (plant_frame _ _ _).1

@[simp] theorem origins_start : (start t ns).origins = Origin.ofNodes ns := (plant_frame _ _ _).2.1

@[simp] theorem owners_start : (start t ns).owners = ∅ := (plant_frame _ _ _).2.2

theorem planted_start :
    ∃ claimed, Planted (Origin.anchors (Origin.ofNodes ns)) claimed (start t ns) := by
  have nothing : Planted [] ∅ ({ track := t, origins := Origin.ofNodes ns } : Territory) := by
    refine ⟨by simp, by simp, by simp, by simp, fun k => ?_⟩
    simp [Least]
  exact planted_plant nothing Origin.sorted_anchors

theorem Planted.claimed_iff {os : Std.ExtTreeMap Origin (List Cell)}
    (h : Planted (Origin.anchors os) claimed s) :
    claimed[c]? = some p ↔ Origin.FirstAt os p c := by
  unfold Origin.FirstAt
  constructor
  · intro hp
    obtain ⟨hmem, hle⟩ := h.first c p hp
    exact ⟨Origin.mem_anchors.1 hmem, fun q hq => hle q (Origin.mem_anchors.2 hq)⟩
  · rintro ⟨hp, hle⟩
    obtain ⟨q, hq⟩ := h.claims p c (Origin.mem_anchors.2 hp)
    obtain ⟨hmem, hqle⟩ := h.first c q hq
    have hpq := hle q (Origin.mem_anchors.1 hmem)
    have hqp := hqle p (Origin.mem_anchors.2 hp)
    rw [hq, Std.LawfulEqOrd.eq_of_compare (Std.OrientedCmp.isLE_antisymm hpq hqp)]

theorem exists_firstAt {ns : List Site} (ho : Origin.Anchored (Origin.ofNodes ns) o c) :
    ∃ p, Origin.FirstAt (Origin.ofNodes ns) p c := by
  obtain ⟨claimed, h⟩ := planted_start .empty ns
  obtain ⟨p, hp⟩ := h.claims o c (Origin.mem_anchors.2 ho)
  exact ⟨p, h.claimed_iff.1 hp⟩

/-- What waits before the first unit: every anchor, for the first of its origins. -/
theorem mem_queue_start {e : Cell × Reach} :
    e ∈ (start t ns).queue.toList ↔
      Origin.FirstAt (Origin.ofNodes ns) e.2.origin e.1 ∧ e.2.trail = [] := by
  obtain ⟨claimed, h⟩ := planted_start t ns
  rw [h.waiting, h.claimed_iff]

theorem nodup_queue_start : ((start t ns).queue.toList.map Prod.fst).Nodup :=
  nodup_plant (by simp) (by simp)

theorem sorted_start :
    (start t ns).queue.toList.Pairwise fun e f => (compare e.2.origin f.2.origin).isLE = true := by
  obtain ⟨claimed, h⟩ := planted_start t ns
  exact h.sorted

/-- The contact that a shared anchor makes: the first of its origins with another one. -/
def Shares (os : Std.ExtTreeMap Origin (List Cell)) (k : Origin.Pair) (n : Nat) : Prop :=
  n = 0 ∧ ∃ c p o, Origin.FirstAt os p c ∧ Origin.Anchored os o c ∧ p ≠ o ∧ k = Origin.Pair.of p o

/-- The contacts before the first unit are those of shared anchors. -/
theorem least_start (k : Origin.Pair) :
    Least (Shares (Origin.ofNodes ns) k) (start t ns).contacts[k]? := by
  obtain ⟨claimed, h⟩ := planted_start t ns
  apply (h.contacts k).congr
  intro n
  simp only [h.claimed_iff, Origin.mem_anchors]
  rfl

end Territory

end Signalbox
