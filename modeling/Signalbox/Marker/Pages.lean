import Signalbox.Marker.Basic

/-!
# Reading markers page by page

The markers of a region are scanned in pages, and handed out one at a time.  A page is scanned when
the one before it is used up; a page that is not full is the last one.

* `Pages.toList_of_next?` : every marker is handed out once, in scan order.
-/

set_option autoImplicit false

namespace Signalbox

/-- A reader of the markers of a region. -/
structure Pages where
  roll : MarkerRoll
  region : RegionId
  /-- How many markers were scanned. -/
  offset : Nat := 0
  /-- The markers of the current page that are not handed out yet. -/
  page : List Marker := []
  /-- The last page was scanned. -/
  exhausted : Bool := false

namespace Pages

/-- How many markers a page holds. -/
def pageSize : Nat := 256

/-- A region's markers, before the first page is scanned. -/
def ofTable (t : MarkerRoll) (r : RegionId) : Pages := { roll := t, region := r }

/-- The markers that are not scanned yet. -/
def later (p : Pages) : List Marker :=
  if p.exhausted then [] else (p.roll.markers p.region).drop p.offset

/-- The markers still to come. -/
def toList (p : Pages) : List Marker := p.page ++ p.later

/-- How many markers are still to come. -/
def left (p : Pages) : Nat := p.toList.length

/-- The pages with the next one scanned. -/
def scanNext (p : Pages) : Pages :=
  let page := p.roll.scan p.region p.offset pageSize
  { p with
    offset := p.offset + page.length
    page := page
    exhausted := decide (page.length < pageSize) }

/-- The pages with the next one scanned, if there is one and the current one is used up. -/
def turn (p : Pages) : Pages := if p.page.isEmpty && !p.exhausted then p.scanNext else p

/-- The next marker, and the pages without it. -/
def next? (p : Pages) : Option (Marker × Pages) :=
  match p.turn.page with
  | [] => none
  | m :: rest => some (m, { p.turn with page := rest })

@[simp] theorem toList_ofTable (t : MarkerRoll) (r : RegionId) :
    (ofTable t r).toList = t.markers r := by
  simp [ofTable, toList, later]

/-- No marker lies behind a page that is not full, and none is between a page and those behind it. -/
theorem toList_scanNext (p : Pages) :
    p.scanNext.toList = (p.roll.markers p.region).drop p.offset := by
  simp only [scanNext, toList, later, MarkerRoll.scan, decide_eq_true_eq, List.length_take,
    List.length_drop, ← List.drop_drop]
  generalize hl : (p.roll.markers p.region).drop p.offset = l
  have length : l.length = (p.roll.markers p.region).length - p.offset := by
    rw [← hl, List.length_drop]
  rw [← length]
  split
  · rw [List.append_nil, List.take_of_length_le (by omega)]
  · rw [Nat.min_eq_left (by omega), List.take_append_drop]

@[simp] theorem toList_turn (p : Pages) : p.turn.toList = p.toList := by
  unfold turn
  split
  · rename_i used
    simp only [Bool.and_eq_true, List.isEmpty_iff, Bool.not_eq_true'] at used
    rw [toList_scanNext]
    simp [toList, later, used.1, used.2]
  · rfl

/-- A page is empty only behind the last marker. -/
theorem toList_of_page_turn {p : Pages} (h : p.turn.page = []) : p.turn.toList = [] := by
  have exhausted : p.turn.exhausted = true := by
    unfold turn at h ⊢
    split
    · rename_i used
      rw [if_pos used] at h
      have nothing : p.roll.scan p.region p.offset pageSize = [] := h
      simp only [scanNext, nothing]
      rfl
    · rename_i unused
      rw [if_neg unused] at h
      simpa [h] using unused
  rw [toList, h, List.nil_append, later, if_pos exhausted]

theorem toList_of_next? {p q : Pages} {m : Marker} (h : p.next? = some (m, q)) :
    p.toList = m :: q.toList := by
  unfold next? at h
  split at h
  · simp at h
  · rename_i rest hp
    simp only [Option.some.injEq, Prod.mk.injEq] at h
    obtain ⟨rfl, rfl⟩ := h
    rw [← toList_turn p, toList, hp]
    rfl

theorem next?_eq_none_iff {p : Pages} : p.next? = none ↔ p.toList = [] := by
  unfold next?
  split
  · rename_i hp
    rw [← toList_turn p, toList_of_page_turn hp]
    exact iff_of_true rfl rfl
  · rename_i m rest hp
    rw [← toList_turn p]
    simp [toList, hp]

theorem left_of_next? {p q : Pages} {m : Marker} (h : p.next? = some (m, q)) :
    p.left = q.left + 1 := by
  simp [left, toList_of_next? h]

end Pages

end Signalbox
