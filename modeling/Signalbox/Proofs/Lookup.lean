import Signalbox.Heap
import Std.Data.ExtTreeMap
import Std.Data.ExtTreeSet

/-!
# Lookups

The orders of the library only call equal what is equal.  So a map may be looked up with equality of
keys, instead of the comparisons with which it is built.  Entries of a list are looked up by their
place, or by what they have in common, and those of a heap by what comes first:

* `Heap.pop?_of_first` : an entry that comes before all others is handed out.
-/

set_option autoImplicit false

namespace Signalbox

theorem getElem?_concat_eq_some {α : Type} {l : List α} {a b : α} {k : Nat} :
    (l ++ [a])[k]? = some b ↔ l[k]? = some b ∨ (k = l.length ∧ b = a) := by
  by_cases inside : k < l.length
  · rw [List.getElem?_append_left inside, or_iff_left fun h => absurd h.1 (Nat.ne_of_lt inside)]
  · rw [List.getElem?_append_right (Nat.not_lt.1 inside), List.getElem?_singleton,
      List.getElem?_eq_none (Nat.not_lt.1 inside)]
    have reached : k - l.length = 0 ↔ k = l.length := by omega
    by_cases hk : k = l.length
    · simp [hk, eq_comm]
    · simp [hk, reached]

theorem eq_of_ordered {α : Type} {r : α → α → Prop} {l l' : List α}
    (asymm : ∀ a b, r a b → ¬ r b a) (hl : l.Pairwise r) (hl' : l'.Pairwise r)
    (same : ∀ a, a ∈ l ↔ a ∈ l') : l = l' := by
  have nodup {l : List α} (h : l.Pairwise r) : l.Nodup := by
    refine h.imp fun {a b} before eq => ?_
    subst eq
    exact asymm a a before before
  have perm : l.Perm l' := (List.perm_ext_iff_of_nodup (nodup hl) (nodup hl')).2 same
  exact perm.eq_of_pairwise (fun a b _ _ before after => absurd after (asymm a b before)) hl hl'

/-- Sorting is stable: entries that tie keep their order. -/
theorem filter_mergeSort {α : Type} {le : α → α → Bool} {p : α → Bool}
    (trans : ∀ a b c, le a b = true → le b c = true → le a c = true)
    (total : ∀ a b, (le a b || le b a) = true)
    (ties : ∀ a b, p a = true → p b = true → le a b = true) (l : List α) :
    (l.mergeSort le).filter p = l.filter p := by
  have equal : (l.filter p).Pairwise fun a b => le a b = true :=
    List.pairwise_iff_forall_sublist.2 fun {a b} both =>
      ties a b (List.mem_filter.1 (both.subset (by simp))).2
        (List.mem_filter.1 (both.subset (by simp))).2
  have stable : (l.filter p).Sublist (l.mergeSort le) :=
    List.sublist_mergeSort trans total equal List.filter_sublist
  have same := stable.filter p
  rw [List.filter_filter, List.filter_congr fun a _ => Bool.and_self _] at same
  exact (same.eq_of_length ((List.mergeSort_perm l le).symm.filter _).length_eq).symm

theorem pairwise_mergeSort_compare {α : Type} [Ord α] [Std.TransOrd α] (l : List α) :
    (l.mergeSort fun a b => (compare a b).isLE).Pairwise fun a b => (compare a b).isLE = true := by
  refine List.pairwise_mergeSort (fun a b c => Std.TransCmp.isLE_trans) (fun a b => ?_) l
  rw [Bool.or_eq_true, ← Std.OrientedCmp.isGE_iff_isLE (a := a) (b := b)]
  cases compare a b <;> simp

/-- The entry that a least value is found at comes first among the entries of that value. -/
theorem least_of_minOn? {α β : Type} [LE β] [DecidableLE β] [Std.IsLinearPreorder β]
    {r : α → α → Prop} {f : α → β} {l : List α} {a : α} (sorted : l.Pairwise r)
    (h : l.minOn? f = some a) : ∀ b ∈ l, f a ≤ f b ∧ (f b ≤ f a → a = b ∨ r a b) := by
  induction l generalizing a with
  | nil => simp
  | cons x l ih =>
    rw [List.pairwise_cons] at sorted
    obtain ⟨before, sorted⟩ := sorted
    rw [List.minOn?_cons, Option.some.injEq] at h
    rw [List.forall_mem_cons]
    cases rest : l.minOn? f with
    | none =>
      have empty : l = [] := by
        cases l with
        | nil => rfl
        | cons y l => simp [List.minOn?] at rest
      rw [rest, Option.elim_none] at h
      subst h empty
      exact ⟨⟨Std.le_refl _, fun _ => Or.inl rfl⟩, by simp⟩
    | some y =>
      rw [rest, Option.elim_some, minOn] at h
      have least := ih sorted rest
      split at h
      · rename_i le
        subst h
        exact ⟨⟨Std.le_refl _, fun _ => Or.inl rfl⟩,
          fun b hb => ⟨Std.le_trans le (least b hb).1, fun _ => Or.inr (before b hb)⟩⟩
      · rename_i more
        subst h
        exact ⟨⟨Std.le_of_not_ge more, fun le => absurd le more⟩, least⟩

section

variable {κ β : Type} [Ord κ] [Std.TransOrd κ]

theorem lookup_insert [Std.LawfulEqOrd κ] [DecidableEq κ] (m : Std.ExtTreeMap κ β) (k : κ) (v : β)
    (l : κ) :
    (m.insert k v)[l]? = if k = l then some v else m[l]? := by
  rw [Std.ExtTreeMap.getElem?_insert]
  by_cases h : k = l
  · rw [if_pos h, if_pos (Std.compare_eq_iff_eq.2 h)]
  · rw [if_neg h, if_neg fun he => h (Std.compare_eq_iff_eq.1 he)]

theorem insert_of_lookup [Std.LawfulEqOrd κ] [DecidableEq κ] {m : Std.ExtTreeMap κ β} {k : κ} {v : β}
    (h : m[k]? = some v) : m.insert k v = m := by
  refine Std.ExtTreeMap.ext_getElem? fun {l} => ?_
  rw [lookup_insert]
  split
  · rename_i here
    rw [← here, h]
  · rfl

theorem mem_erase_iff [Std.LawfulEqOrd κ] {s : Std.ExtTreeSet κ} {k l : κ} :
    l ∈ s.erase k ↔ k ≠ l ∧ l ∈ s := by
  rw [Std.ExtTreeSet.mem_erase, ne_eq, Std.compare_eq_iff_eq]

theorem lookup_erase [Std.LawfulEqOrd κ] [DecidableEq κ] (m : Std.ExtTreeMap κ β) (k l : κ) :
    (m.erase k)[l]? = if k = l then none else m[l]? := by
  rw [Std.ExtTreeMap.getElem?_erase]
  by_cases h : k = l
  · rw [if_pos h, if_pos (Std.compare_eq_iff_eq.2 h)]
  · rw [if_neg h, if_neg fun he => h (Std.compare_eq_iff_eq.1 he)]

theorem lookup_insertIfNew [Std.LawfulEqOrd κ] [DecidableEq κ] (m : Std.ExtTreeMap κ β) (k : κ)
    (v : β) (l : κ) :
    (m.insertIfNew k v)[l]? = (m[l]?).or (if k = l then some v else none) := by
  rw [Std.ExtTreeMap.getElem?_insertIfNew]
  by_cases h : k = l
  · subst h
    rw [if_pos rfl]
    by_cases present : k ∈ m
    · rw [if_neg fun both => both.2 present, Option.or_of_isSome]
      exact Std.ExtTreeMap.mem_iff_isSome_getElem?.1 present
    · rw [if_pos ⟨Std.compare_self, present⟩, Std.ExtTreeMap.getElem?_eq_none present, Option.none_or]
  · rw [if_neg h, if_neg fun he => h (Std.compare_eq_iff_eq.1 he.1), Option.or_none]

theorem mem_iff_lookup {m : Std.ExtTreeMap κ β} {k : κ} : k ∈ m ↔ ∃ v, m[k]? = some v := by
  rw [Std.ExtTreeMap.mem_iff_isSome_getElem?, Option.isSome_iff_exists]

end

namespace Heap

variable {α : Type} [Ord α] [Std.TransOrd α] {h k : Heap α} {a b : α} {as : List α}

theorem le_of_pop? (p : h.pop? = some (a, k)) (hb : b ∈ k.entries) :
    (compare a b).isLE = true := by
  have sorted := pairwise_mergeSort_compare h.entries
  rw [mergeSort_of_pop? p, List.pairwise_cons] at sorted
  exact sorted.1 b hb

theorem pop?_of_first (perm : h.entries.Perm (a :: as))
    (first : ∀ b ∈ as, compare a b = .lt) : ∃ k, h.pop? = some (a, k) ∧ k.entries.Perm as := by
  cases p : h.pop? with
  | none =>
    rw [pop?_eq_none_iff.1 p] at perm
    cases perm.nil_eq
  | some found =>
    obtain ⟨b, k⟩ := found
    have same : (b :: k.entries).Perm (a :: as) := (perm_of_pop? p).trans perm
    have here : b = a := by
      rcases List.mem_cons.1 (same.mem_iff.1 (List.mem_cons_self ..)) with here | late
      · exact here
      · -- the entry handed out cannot come after `a`, which is still there
        have before : compare a b = .lt := first b late
        rcases List.mem_cons.1 (same.mem_iff.2 (List.mem_cons_self ..)) with here | left
        · exact here.symm
        · have le := le_of_pop? p left
          have swap : compare b a = (compare a b).swap := Std.OrientedCmp.eq_swap
          rw [swap, before] at le
          cases le
    subst here
    exact ⟨k, rfl, same.cons_inv⟩

end Heap

end Signalbox
