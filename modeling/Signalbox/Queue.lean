/-!
# Queues

A queue hands its entries out in the order in which they were put in.  It is kept as two lists, the
back one reversed, so that neither end is slow; what it holds is its `toList`:

* `Queue.toList_push` : a new entry stands last;
* `Queue.toList_of_pop?` : the first entry is handed out, and the others remain.
-/

set_option autoImplicit false

namespace Signalbox

/-- Entries in their order: those of `front`, then those of `back` from its end. -/
structure Queue (α : Type) where
  front : List α := []
  back : List α := []

namespace Queue

variable {α : Type}

def empty : Queue α := {}

instance : Inhabited (Queue α) := ⟨empty⟩

/-- The entries, first one first. -/
def toList (q : Queue α) : List α := q.front ++ q.back.reverse

def length (q : Queue α) : Nat := q.front.length + q.back.length

def isEmpty (q : Queue α) : Bool := q.front.isEmpty && q.back.isEmpty

/-- The queue with one more entry, behind the others. -/
def push (q : Queue α) (a : α) : Queue α := { q with back := a :: q.back }

/-- The first entry and the rest. -/
def pop? (q : Queue α) : Option (α × Queue α) :=
  match q.front, q.back.reverse with
  | a :: rest, _ => some (a, ⟨rest, q.back⟩)
  | [], a :: rest => some (a, ⟨rest, []⟩)
  | [], [] => none

@[simp] theorem toList_empty : (empty : Queue α).toList = [] := rfl

@[simp] theorem toList_push (q : Queue α) (a : α) : (q.push a).toList = q.toList ++ [a] := by
  simp [toList, push]

@[simp] theorem length_toList (q : Queue α) : q.toList.length = q.length := by
  simp [toList, length]

@[simp] theorem length_push (q : Queue α) (a : α) : (q.push a).length = q.length + 1 := by
  simp [length, push]; omega

theorem isEmpty_iff {q : Queue α} : q.isEmpty = true ↔ q.toList = [] := by
  simp [isEmpty, toList]

theorem pop?_eq_none_iff {q : Queue α} : q.pop? = none ↔ q.toList = [] := by
  unfold pop? toList
  split <;> simp_all

theorem toList_of_pop? {q r : Queue α} {a : α} (h : q.pop? = some (a, r)) :
    q.toList = a :: r.toList := by
  unfold pop? at h
  split at h
  · simp only [Option.some.injEq, Prod.mk.injEq] at h
    obtain ⟨rfl, rfl⟩ := h
    simp_all [toList]
  · simp only [Option.some.injEq, Prod.mk.injEq] at h
    obtain ⟨rfl, rfl⟩ := h
    simp_all [toList]
  · simp at h

theorem length_of_pop? {q r : Queue α} {a : α} (h : q.pop? = some (a, r)) :
    q.length = r.length + 1 := by
  rw [← length_toList, toList_of_pop? h, List.length_cons, length_toList]

theorem pop?_isSome_of_isEmpty_eq_false {q : Queue α} (h : q.isEmpty = false) :
    ∃ a r, q.pop? = some (a, r) := by
  cases hp : q.pop? with
  | none => simp [isEmpty_iff.2 (pop?_eq_none_iff.1 hp)] at h
  | some p => exact ⟨p.1, p.2, rfl⟩

end Queue

end Signalbox
