/-!
# Totals

The sum of a quantity over the members of a list.
-/

set_option autoImplicit false

namespace Signalbox

/-- The sum of `f` over a list. -/
def total {α : Type} (f : α → Nat) (l : List α) : Nat := l.foldr (fun a n => f a + n) 0

section

variable {α : Type} (f : α → Nat)

@[simp] theorem total_nil : total f [] = 0 := rfl

@[simp] theorem total_cons (a : α) (l : List α) : total f (a :: l) = f a + total f l := rfl

@[simp] theorem total_append (l m : List α) : total f (l ++ m) = total f l + total f m := by
  induction l with
  | nil => simp
  | cons a l ih => simp only [List.cons_append, total_cons, ih, Nat.add_assoc]

@[simp] theorem total_reverse (l : List α) : total f l.reverse = total f l := by
  induction l with
  | nil => rfl
  | cons a l ih => simp only [List.reverse_cons, total_append, ih, total_cons, total_nil]; omega

theorem total_map {β : Type} (g : β → α) (l : List β) :
    total f (l.map g) = total (fun b => f (g b)) l := by
  induction l with
  | nil => rfl
  | cons b l ih => simp only [List.map_cons, total_cons, ih]

theorem total_le_mul {l : List α} {n : Nat} (h : ∀ a ∈ l, f a ≤ n) : total f l ≤ l.length * n := by
  induction l with
  | nil => exact Nat.zero_le _
  | cons a l ih =>
    have first := h a (List.mem_cons_self ..)
    have rest := ih fun b hb => h b (List.mem_cons_of_mem _ hb)
    rw [total_cons, List.length_cons, Nat.succ_mul]
    omega

end

theorem total_set_lt {l : List Nat} {i k c : Nat} (h : l[i]? = some k) (less : c < k) :
    total id (l.set i c) < total id l := by
  induction l generalizing i with
  | nil => cases h
  | cons a l ih =>
    cases i with
    | zero =>
      cases h
      exact Nat.add_lt_add_right less _
    | succ i => exact Nat.add_lt_add_left (ih h) _

end Signalbox
