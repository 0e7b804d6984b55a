import Mathlib.Data.List.Basic
import Signalbox.Proofs.Lookup

/-!
# Order of occurrence

Without its repetitions a list stands in the order in which its entries occur first.  There is only
one list like that, so it may be told by what it holds and in which order.

* `pairwise_idxOf_eraseDups` : the order of a list without its repetitions;
* `firstOccurrences_iff`     : which list has each entry where it occurs first.
-/

set_option autoImplicit false

namespace Signalbox

/-- What is left of a list stands in the order in which it occurs first in the whole. -/
theorem idxOf_lt_of_filter {α : Type} [DecidableEq α] {p : α → Bool} {as : List α} {a b : α}
    (ha : p a = true) (hb : p b = true)
    (h : (as.filter p).idxOf a < (as.filter p).idxOf b) : as.idxOf a < as.idxOf b := by
  induction as with
  | nil => exact h
  | cons c as ih =>
    by_cases hc : p c = true
    · rw [List.filter_cons_of_pos hc] at h
      by_cases hca : c = a
      · have hcb : c ≠ b := by
          rintro rfl
          rw [hca] at h
          exact Nat.lt_irrefl _ h
        rw [List.idxOf_cons_eq _ hca, List.idxOf_cons_ne _ hcb]
        exact Nat.succ_pos _
      · by_cases hcb : c = b
        · rw [List.idxOf_cons_eq _ hcb] at h
          exact absurd h (Nat.not_lt_zero _)
        · rw [List.idxOf_cons_ne _ hca, List.idxOf_cons_ne _ hcb] at h ⊢
          exact Nat.succ_lt_succ (ih (Nat.lt_of_succ_lt_succ h))
    · have hca : c ≠ a := fun he => hc (he ▸ ha)
      have hcb : c ≠ b := fun he => hc (he ▸ hb)
      rw [List.filter_cons_of_neg hc] at h
      rw [List.idxOf_cons_ne _ hca, List.idxOf_cons_ne _ hcb]
      exact Nat.succ_lt_succ (ih h)

/-- Without its repetitions a list stands in the order of first occurrence. -/
theorem pairwise_idxOf_eraseDups {α : Type} [DecidableEq α] (as : List α) :
    as.eraseDups.Pairwise fun a b => as.idxOf a < as.idxOf b := by
  match as with
  | [] => simp
  | a :: as =>
    rw [List.eraseDups_cons, List.pairwise_cons]
    have apart {b : α} (hb : b ∈ (as.filter fun b => !b == a).eraseDups) : a ≠ b := by
      rintro rfl
      simpa using (List.mem_filter.1 (List.mem_eraseDups.1 hb)).2
    constructor
    · intro b hb
      rw [List.idxOf_cons_self, List.idxOf_cons_ne _ (apart hb)]
      exact Nat.succ_pos _
    · refine (pairwise_idxOf_eraseDups (as.filter fun b => !b == a)).imp_of_mem ?_
      intro b c hb hc earlier
      rw [List.idxOf_cons_ne _ (apart hb), List.idxOf_cons_ne _ (apart hc)]
      exact Nat.succ_lt_succ (idxOf_lt_of_filter (by simpa using (apart hb).symm)
        (by simpa using (apart hc).symm) earlier)
termination_by as.length
decreasing_by exact Nat.lt_succ_of_le (List.length_filter_le _ _)

/-- The second list holds what the first one holds, in the order in which it occurs there first. -/
structure FirstOccurrences {α : Type} [DecidableEq α] (as bs : List α) : Prop where
  same (a : α) : a ∈ bs ↔ a ∈ as
  order : bs.Pairwise fun a b => as.idxOf a < as.idxOf b

theorem FirstOccurrences.nodup {α : Type} [DecidableEq α] {as bs : List α}
    (h : FirstOccurrences as bs) : bs.Nodup := by
  refine h.order.imp fun {a b} before eq => ?_
  rw [eq] at before
  exact Nat.lt_irrefl _ before

/-- **Each entry where it occurs first**: that is the list without its repetitions. -/
theorem firstOccurrences_iff {α : Type} [DecidableEq α] {as bs : List α} :
    FirstOccurrences as bs ↔ bs = as.eraseDups := by
  constructor
  · intro h
    refine eq_of_ordered (fun a b => Nat.lt_asymm) h.order (pairwise_idxOf_eraseDups as) fun a => ?_
    rw [h.same, List.mem_eraseDups]
  · rintro rfl
    exact ⟨fun a => List.mem_eraseDups, pairwise_idxOf_eraseDups as⟩

end Signalbox
