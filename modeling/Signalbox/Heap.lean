/-!
# Heaps

A heap hands out its least entry, whenever it was put in.  How it keeps the others does not show, so
they are kept as they came, and put in order when one of them is wanted:

* `Heap.perm_of_pop?` : one entry is handed out, and the others remain.
-/

set_option autoImplicit false

namespace Signalbox

/-- Entries of which the least is wanted first. -/
structure Heap (α : Type) where
  entries : List α := []

namespace Heap

variable {α : Type}

def empty : Heap α := {}

instance : Inhabited (Heap α) := ⟨empty⟩

def push (h : Heap α) (a : α) : Heap α := ⟨a :: h.entries⟩

@[simp] theorem entries_empty : (empty : Heap α).entries = [] := rfl

@[simp] theorem entries_push (h : Heap α) (a : α) : (h.push a).entries = a :: h.entries := rfl

variable [Ord α] {h k : Heap α} {a : α}

/-- The least entry and the rest. -/
def pop? (h : Heap α) : Option (α × Heap α) :=
  match h.entries.mergeSort fun a b => (compare a b).isLE with
  | [] => none
  | a :: rest => some (a, ⟨rest⟩)

theorem mergeSort_of_pop? (p : h.pop? = some (a, k)) :
    (h.entries.mergeSort fun a b => (compare a b).isLE) = a :: k.entries := by
  unfold pop? at p
  split at p
  · cases p
  · rename_i sorted
    cases p
    exact sorted

theorem pop?_eq_none_iff : h.pop? = none ↔ h.entries = [] := by
  have same : (h.entries.mergeSort fun a b => (compare a b).isLE).length = h.entries.length :=
    List.length_mergeSort _
  unfold pop?
  split
  · rename_i nothing
    rw [nothing] at same
    simpa using List.eq_nil_of_length_eq_zero same.symm
  · rename_i b rest some_
    rw [some_, List.length_cons] at same
    simp only [reduceCtorEq, false_iff]
    rintro nothing
    rw [nothing] at same
    cases same

theorem perm_of_pop? (p : h.pop? = some (a, k)) : (a :: k.entries).Perm h.entries := by
  rw [← mergeSort_of_pop? p]
  exact List.mergeSort_perm _ _

theorem length_of_pop? (p : h.pop? = some (a, k)) :
    h.entries.length = k.entries.length + 1 := (perm_of_pop? p).length_eq.symm

end Heap

end Signalbox
