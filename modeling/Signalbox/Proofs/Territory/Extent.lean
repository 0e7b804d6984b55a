import Signalbox.Proofs.Territory.Contacts
import Signalbox.Proofs.Territory.Lineage

/-!
# How far territory extends

The cells on the trail to an owned cell are all different and all of the same owner, so that no
origin is further from its cells than it has cells.

* `Territory.distance_lt_holding` : the distance of a cell is less than its owner's holding;
* `Territory.total_holding_le`    : different nodes hold no more than all the track together;
* `Territory.Frontier.distance_lt_size` : so every distance fits a word that counts the track;
* `Territory.Frontier.touch_lt_size` : and so does every length at which two origins touch.
-/

set_option autoImplicit false

namespace Signalbox

section

variable {α β : Type}

theorem total_add (f g : α → Nat) (l : List α) :
    total (fun a => f a + g a) l = total f l + total g l := by
  induction l with
  | nil => rfl
  | cons a l ih =>
    simp only [total_cons, ih]
    omega

theorem total_eq_count [DecidableEq α] (a : α) (l : List α) :
    total (fun x => if a = x then 1 else 0) l = l.count a := by
  induction l with
  | nil => rfl
  | cons x l ih =>
    rw [total_cons, ih, List.count_cons, Nat.add_comm]
    simp only [beq_iff_eq, @eq_comm _ x]

/-- Members counted by a quantity of theirs, for different quantities, are no more than all. -/
theorem total_countP_le [DecidableEq β] (f : α → β) {xs : List β} (h : xs.Nodup) (l : List α) :
    total (fun x => l.countP fun a => decide (f a = x)) xs ≤ l.length := by
  induction l with
  | nil =>
    have zero := total_add (fun _ : β => 0) (fun _ => 0) xs
    simp only [List.countP_nil, Nat.add_zero] at zero ⊢
    omega
  | cons a l ih =>
    have once : total (fun x => if f a = x then 1 else 0) xs ≤ 1 := by
      rw [total_eq_count]
      exact List.nodup_iff_count.1 h (f a)
    simp only [List.countP_cons, decide_eq_true_eq, total_add, List.length_cons]
    omega

end

theorem Track.length_le_size {t : Track} {cs : List Cell} (distinct : cs.Nodup)
    (laid : ∀ c ∈ cs, c ∈ t) : cs.length ≤ t.size := by
  have room := distinct.length_le_of_subset fun c hc => Track.mem_toList.2 (laid c hc)
  rwa [Track.toList, Std.ExtTreeSet.length_toList] at room

namespace Territory

variable {s : Territory} {c d : Cell} {r q : Reach}

/-- How many cells a node owns. -/
def holding (s : Territory) (x : NodeId) : Nat :=
  s.owners.toList.countP fun p => decide (p.2.origin.id = x)

/-- **The distance of a cell is less than the holding of its owner.** -/
theorem Frontier.distance_lt_holding (h : Frontier s) (hc : s.owners[c]? = some r) :
    r.distance < s.holding r.origin.id := by
  obtain ⟨o, trail⟩ := r
  have nodup := h.rooted.nodup hc
  have owned : ∀ d ∈ c :: trail, ∃ rest : List Cell, s.owners[d]? = some ⟨o, rest⟩ := by
    intro d hd
    rcases List.mem_cons.1 hd with rfl | hd
    · exact ⟨trail, hc⟩
    · obtain ⟨rest, hr, -⟩ := h.rooted.owned_of_mem hc hd
      exact ⟨rest, hr⟩
  have sub : c :: trail ⊆
      (s.owners.toList.filter fun p => decide (p.2.origin.id = o.id)).map Prod.fst := by
    intro d hd
    obtain ⟨rest, hr⟩ := owned d hd
    refine List.mem_map.2 ⟨(d, ⟨o, rest⟩), List.mem_filter.2 ⟨?_, by simp⟩, rfl⟩
    exact Std.ExtTreeMap.mem_toList_iff_getElem?_eq_some.2 hr
  have room := nodup.length_le_of_subset sub
  rw [List.length_map, ← List.countP_eq_length_filter] at room
  exact room

/-- Different nodes hold no more cells than are owned. -/
theorem total_holding_le_visited {xs : List NodeId} (h : xs.Nodup) :
    total s.holding xs ≤ s.visited := by
  have counted := total_countP_le (fun p : Cell × Reach => p.2.origin.id) h s.owners.toList
  rw [Std.ExtTreeMap.length_toList] at counted
  exact counted

theorem visited_le_size (laid : ∀ c ∈ s.owners, c ∈ s.track) : s.visited ≤ s.track.size := by
  have room := Track.length_le_size Std.ExtTreeMap.nodup_keys fun c hc =>
    laid c (Std.ExtTreeMap.mem_keys.1 hc)
  rwa [Std.ExtTreeMap.length_keys] at room

/-- **Different nodes hold no more than all the track together.** -/
theorem total_holding_le {xs : List NodeId} (h : xs.Nodup) (laid : ∀ c ∈ s.owners, c ∈ s.track) :
    total s.holding xs ≤ s.track.size :=
  Nat.le_trans (total_holding_le_visited h) (visited_le_size laid)

/-- A cell is fewer steps away than there is track. -/
theorem Frontier.distance_lt_size (h : Frontier s) (laid : s.Laid)
    (hc : s.owners[c]? = some r) : r.distance < s.track.size := by
  have held := total_holding_le (List.pairwise_singleton _ r.origin.id)
    fun _ => h.mem_track_of_owned laid
  have near := h.distance_lt_holding hc
  simp only [total_cons, total_nil] at held
  omega

/-! ## Lengths of words -/

theorem Frontier.laid_trail (h : Frontier s) (laid : s.Laid) (hc : s.owners[c]? = some r) :
    ∀ x ∈ c :: r.trail, x ∈ s.track := by
  intro x hx
  rcases List.mem_cons.1 hx with rfl | hx
  · exact h.mem_track laid (Or.inl hc)
  · obtain ⟨rest, hr, -⟩ := h.rooted.owned_of_mem hc hx
    exact h.mem_track laid (Or.inl hr)

theorem Frontier.next_lt_size (h : Frontier s) (laid : s.Laid) (hc : s.owners[c]? = some r)
    (hd : d ∈ s.track) (free : d ∉ s.owners) : r.distance + 1 < s.track.size := by
  have fresh : d ∉ c :: r.trail := by
    intro hx
    rcases List.mem_cons.1 hx with rfl | hx
    · exact free (mem_iff_lookup.2 ⟨r, hc⟩)
    · obtain ⟨rest, hr, -⟩ := h.rooted.owned_of_mem hc hx
      exact free (mem_iff_lookup.2 ⟨_, hr⟩)
  exact Track.length_le_size (List.nodup_cons.2 ⟨fresh, h.rooted.nodup hc⟩)
    (List.forall_mem_cons.2 ⟨hd, h.laid_trail laid hc⟩)

/-- Two cells of different origins are together fewer steps away than there is track, even with one
step between them. -/
theorem Frontier.touch_lt_size (h : Frontier s) (laid : s.Laid) (hc : s.owners[c]? = some r)
    (hd : s.owners[d]? = some q) (other : q.origin ≠ r.origin) :
    r.distance + 1 + q.distance < s.track.size := by
  have origin {c : Cell} {r : Reach} (hc : s.owners[c]? = some r) {x : Cell}
      (hx : x ∈ c :: r.trail) : ∃ rest, s.owners[x]? = some ⟨r.origin, rest⟩ := by
    rcases List.mem_cons.1 hx with rfl | hx
    · exact ⟨r.trail, hc⟩
    · obtain ⟨rest, hr, -⟩ := h.rooted.owned_of_mem hc hx
      exact ⟨rest, hr⟩
  have apart : ∀ x ∈ c :: r.trail, ∀ y ∈ d :: q.trail, x ≠ y := by
    rintro x hx y hy rfl
    obtain ⟨rest, hr⟩ := origin hc hx
    obtain ⟨rest', hr'⟩ := origin hd hy
    rw [hr, Option.some.injEq, Reach.mk.injEq] at hr'
    exact other hr'.1.symm
  have room := Track.length_le_size
    (List.nodup_append.2 ⟨h.rooted.nodup hc, h.rooted.nodup hd, apart⟩)
    (List.forall_mem_append.2 ⟨h.laid_trail laid hc, h.laid_trail laid hd⟩)
  simp only [List.length_append, List.length_cons] at room
  unfold Reach.distance
  omega

end Territory

end Signalbox
