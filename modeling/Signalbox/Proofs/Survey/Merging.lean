import Mathlib.Data.List.Dedup
import Mathlib.Data.List.Induction
import Signalbox.Proofs.Survey.Sweep

/-!
# What merged markers come to

A roster is built by merging markers one after the other, and every step looks at nothing but the
marker that counts so far.  Here is what comes of it, said about the whole list of markers: for
every node the first marker with a destination counts, or the first marker at all if none has one,
and a conflict is noted for every marker that differs from the one that counted when it was scanned.
Both are proved by induction on the list from its end, one merged marker at a time.

* `Marker.chosen?`            : the marker that counts for a node among some in scan order;
* `Marker.conflicts`          : the conflicts of markers in scan order;
* `Roster.known_mergeAll`     : a roster knows for every node the marker that counts;
* `Roster.conflicts_mergeAll` : and has noted exactly the conflicts;
* `Marker.chosen?_of_last_conflict` : the last conflict of a node names the marker that counts.
-/

set_option autoImplicit false

namespace Signalbox

/-! ## The marker that counts -/

namespace Marker

variable {ms before : List Marker} {m held : Marker} {i : NodeId}

/-- Whether a marker declares the node of an id; the empty id names no node. -/
def declares (i : NodeId) (m : Marker) : Bool := m.id = i && !m.id.isEmpty

/-- The marker that counts for a node among some markers in scan order: the first one that carries a
destination, or the first one if none does. -/
def chosen? (ms : List Marker) (i : NodeId) : Option Marker :=
  let own := ms.filter (declares i)
  (own.find? fun m => m.destination.isSome).or own.head?

/-- The ids of the nodes that markers declare, each once. -/
def ids (ms : List Marker) : List NodeId := ((ms.map id).filter fun i => !i.isEmpty).dedup

theorem declares_iff : declares i m = true ↔ m.id = i ∧ i.isEmpty = false := by
  simp only [declares, Bool.and_eq_true, decide_eq_true_eq, Bool.not_eq_true']
  exact and_congr_right fun h => by rw [h]

theorem mem_ids : i ∈ ids ms ↔ i.isEmpty = false ∧ ∃ m ∈ ms, m.id = i := by
  rw [ids, List.mem_dedup, List.mem_filter, List.mem_map, Bool.not_eq_true', and_comm]

theorem chosen?_nil (i : NodeId) : chosen? [] i = none := rfl

theorem mem_of_chosen? (h : chosen? ms i = some m) : m ∈ ms ∧ declares i m = true := by
  rw [chosen?, Option.or_eq_some_iff] at h
  apply List.mem_filter.1
  rcases h with tagged | ⟨-, first⟩
  · exact List.mem_of_find?_eq_some tagged
  · exact List.mem_of_head? first

theorem id_of_chosen? (h : chosen? ms i = some m) : m.id = i :=
  (declares_iff.1 (mem_of_chosen? h).2).1

theorem isSome_chosen? : (chosen? ms i).isSome = true ↔ i ∈ ids ms := by
  rw [mem_ids, Option.isSome_iff_exists]
  constructor
  · rintro ⟨m, chosen⟩
    obtain ⟨hm, declared⟩ := mem_of_chosen? chosen
    obtain ⟨hid, named⟩ := declares_iff.1 declared
    exact ⟨named, m, hm, hid⟩
  · rintro ⟨named, m, hm, hid⟩
    have own : m ∈ ms.filter (declares i) := List.mem_filter.2 ⟨hm, declares_iff.2 ⟨hid, named⟩⟩
    cases first : (ms.filter (declares i)).head? with
    | none => rw [List.head?_eq_none_iff.1 first] at own; cases own
    | some k => exact ⟨_, by rw [chosen?, first, Option.or_some]⟩

theorem chosen?_append_of_not (h : declares i m = false) : chosen? (ms ++ [m]) i = chosen? ms i := by
  rw [chosen?, chosen?, List.filter_append, List.filter_cons_of_neg (by simp [h]), List.filter_nil,
    List.append_nil]

/-- **One more marker** of a node counts if there was none before, or if it supersedes the one that
counted. -/
theorem chosen?_append_of_declares (h : declares i m = true) :
    chosen? (ms ++ [m]) i =
      some ((chosen? ms i).elim m fun held => if Roster.supersedes m held then m else held) := by
  have own : (ms ++ [m]).filter (declares i) = ms.filter (declares i) ++ [m] := by
    rw [List.filter_append, List.filter_cons_of_pos h, List.filter_nil]
  rw [chosen?, chosen?, own]
  generalize ms.filter (declares i) = ks
  rw [List.find?_append]
  cases tagged : ks.find? (fun m => m.destination.isSome) with
  | some k =>
    have bound : k.destination.isSome = true := by simpa using List.find?_some tagged
    have stays : Roster.supersedes m k = false := by
      rw [Roster.supersedes, Option.isNone_eq_false_iff.2 bound, Bool.false_and]
    simp [stays]
  | none =>
    -- nobody had a destination, so the first one counted
    cases ks with
    | nil => cases hd : m.destination <;> simp [hd]
    | cons k ks =>
      have unbound : k.destination = none := by simpa using List.find?_eq_none.1 tagged k (by simp)
      cases hd : m.destination <;> simp [Roster.supersedes, unbound, hd]

end Marker

/-! ## Conflicts -/

namespace Marker

variable {ms before : List Marker} {m held : Marker} {i : NodeId}

/-- The conflict that a marker makes which is scanned after some others: its node is known by a
marker that differs from it.  Kept is the one of the two that counts from then on. -/
def conflict? (before : List Marker) (m : Marker) : Option MarkerConflict :=
  match chosen? before m.id, chosen? (before ++ [m]) m.id with
  | some held, some kept =>
    if held = m then none else some ⟨m.id, kept, if kept = m then held else m⟩
  | _, _ => none

/-- The conflicts of markers, in scan order. -/
def conflicts (ms : List Marker) : List MarkerConflict :=
  (List.range ms.length).filterMap fun n => ms[n]?.bind (conflict? (ms.take n))

theorem conflicts_nil : conflicts [] = [] := rfl

theorem conflicts_append (ms : List Marker) (m : Marker) :
    conflicts (ms ++ [m]) = conflicts ms ++ (conflict? ms m).toList := by
  have old : ∀ n ∈ List.range ms.length,
      (ms ++ [m])[n]?.bind (conflict? ((ms ++ [m]).take n)) =
        ms[n]?.bind (conflict? (ms.take n)) := by
    intro n hn
    have inside : n < ms.length := List.mem_range.1 hn
    rw [List.getElem?_append_left inside, List.take_append_of_le_length (Nat.le_of_lt inside)]
  have last : (ms ++ [m])[ms.length]?.bind (conflict? ((ms ++ [m]).take ms.length)) =
      conflict? ms m := by
    rw [List.getElem?_concat_length, List.take_left]
    rfl
  rw [conflicts, conflicts, List.length_append, List.length_singleton, List.range_succ,
    List.filterMap_append, List.filterMap_congr old]
  simp only [List.filterMap_cons, List.filterMap_nil, last]
  cases conflict? ms m <;> rfl

theorem conflict?_of_isEmpty (h : m.id.isEmpty = true) : conflict? before m = none := by
  have unknown : chosen? before m.id = none := by
    cases chosen : chosen? before m.id with
    | none => rfl
    | some k =>
      have := (declares_iff.1 (mem_of_chosen? chosen).2).2
      rw [h] at this
      cases this
  rw [conflict?, unknown]

theorem conflict?_of_chosen? (h : chosen? before m.id = some held) :
    conflict? before m =
      if held = m then none
      else if Roster.supersedes m held then some ⟨m.id, m, held⟩ else some ⟨m.id, held, m⟩ := by
  have named := (declares_iff.1 (mem_of_chosen? h).2).2
  have after : chosen? (before ++ [m]) m.id = _ :=
    chosen?_append_of_declares (declares_iff.2 ⟨rfl, named⟩)
  rw [h] at after
  rw [conflict?, h, after]
  by_cases same : held = m
  · simp [same]
  · cases super : Roster.supersedes m held <;> simp [same, super]

theorem kept_of_conflict? {x : MarkerConflict} (h : conflict? before m = some x) :
    x.id = m.id ∧ chosen? (before ++ [m]) m.id = some x.kept := by
  unfold conflict? at h
  split at h
  · rename_i kept _ after
    split at h
    · cases h
    · cases h
      exact ⟨rfl, after⟩
  · cases h

/-- Where no conflict is noted, a marker that counted goes on counting. -/
theorem chosen?_append_of_conflict?_none (h : conflict? ms m = none)
    (hi : chosen? ms i = some held) : chosen? (ms ++ [m]) i = some held := by
  cases declared : declares i m with
  | false => rw [chosen?_append_of_not declared, hi]
  | true =>
    obtain ⟨rfl, -⟩ := declares_iff.1 declared
    have same : held = m := by
      rw [conflict?_of_chosen? hi] at h
      by_contra differs
      rw [if_neg differs] at h
      split at h <;> cases h
    rw [chosen?_append_of_declares declared, hi, Option.elim_some, same, ite_self]

/-- **The last conflict of a node names the marker that counts in the end.** -/
theorem chosen?_of_last_conflict {earlier later : List MarkerConflict} {x : MarkerConflict}
    (noted : conflicts ms = earlier ++ x :: later) (last : ∀ y ∈ later, y.id ≠ x.id) :
    chosen? ms x.id = some x.kept := by
  induction ms using List.reverseRecOn generalizing later with
  | nil => simp [conflicts_nil] at noted
  | append_singleton ms m ih =>
    rw [conflicts_append] at noted
    cases hc : conflict? ms m with
    | none =>
      rw [hc, Option.toList_none, List.append_nil] at noted
      exact chosen?_append_of_conflict?_none hc (ih noted last)
    | some y =>
      obtain ⟨hy, kept⟩ := kept_of_conflict? hc
      rw [hc, Option.toList_some] at noted
      rcases List.eq_nil_or_concat later with rfl | ⟨front, z, rfl⟩
      · -- the conflict in question is the one of the last marker
        obtain ⟨-, same⟩ := List.append_inj' noted rfl
        cases same
        rw [hy]
        exact kept
      · have split : conflicts ms = earlier ++ x :: front ∧ y = z := by
          have shape : conflicts ms ++ [y] = (earlier ++ x :: front) ++ [z] := by
            rw [noted, List.concat_eq_append, List.append_assoc, List.cons_append]
          obtain ⟨h, h'⟩ := List.append_inj' shape rfl
          exact ⟨h, List.cons.inj h' |>.1⟩
        obtain ⟨before, rfl⟩ := split
        have apart : m.id ≠ x.id := hy ▸ last y (by simp)
        have undeclared : declares x.id m = false := by simp [declares, apart]
        rw [chosen?_append_of_not undeclared]
        exact ih before fun w hw => last w (by simp [hw])

end Marker

/-! ## Merging -/

namespace Roster

variable {r : Roster} {m : Marker} {ms : List Marker} {i : NodeId}

theorem mergeAll_append (r : Roster) (ms ks : List Marker) :
    r.mergeAll (ms ++ ks) = (r.mergeAll ms).mergeAll ks := List.foldl_append

theorem counts_merge (r : Roster) (m : Marker) :
    (r.merge m).scanned = r.scanned + 1 ∧
      (r.merge m).invalid = r.invalid + if m.id.isEmpty then 1 else 0 := by
  unfold merge
  simp only
  split
  · exact ⟨rfl, rfl⟩
  · split
    · exact ⟨rfl, rfl⟩
    · split
      · exact ⟨rfl, rfl⟩
      · split <;> exact ⟨rfl, rfl⟩

/-- A marker of a node is filed if the node was not known, or if it supersedes the one on file. -/
theorem known_merge (r : Roster) (m : Marker) (i : NodeId) :
    (r.merge m).known[i]? =
      if Marker.declares i m then
        some ((r.known[i]?).elim m fun held => if supersedes m held then m else held)
      else r.known[i]? := by
  cases empty : m.id.isEmpty with
  | true => simp [merge, empty, Marker.declares]
  | false =>
    have declares : Marker.declares i m = decide (m.id = i) := by simp [Marker.declares, empty]
    rw [declares]
    unfold merge
    simp only [empty, Bool.false_eq_true, if_false]
    by_cases hi : m.id = i
    · subst hi
      cases known : r.known[m.id]? with
      | none => simp
      | some held =>
        by_cases same : held = m
        · simp [same, known]
        · cases super : supersedes m held <;> simp [same, super, known]
    · cases known : r.known[m.id]? with
      | none => simp [hi, lookup_insert]
      | some held =>
        by_cases same : held = m
        · simp [same, hi]
        · cases super : supersedes m held <;> simp [same, super, hi, lookup_insert]

theorem conflicts_merge (known : ∀ i : NodeId, r.known[i]? = Marker.chosen? ms i) (m : Marker) :
    (r.merge m).conflicts = r.conflicts ++ (Marker.conflict? ms m).toList := by
  unfold merge
  simp only
  split
  · rename_i empty
    rw [Marker.conflict?_of_isEmpty empty]
    simp
  · split
    · rename_i fresh
      rw [known] at fresh
      simp [Marker.conflict?, fresh]
    · rename_i held found
      rw [known] at found
      rw [Marker.conflict?_of_chosen? found]
      split
      · simp
      · split <;> rfl

/-- **A roster knows for every node the marker that counts.** -/
theorem known_mergeAll (ms : List Marker) (i : NodeId) :
    (empty.mergeAll ms).known[i]? = Marker.chosen? ms i := by
  induction ms using List.reverseRecOn with
  | nil => simp [mergeAll, empty, Marker.chosen?_nil]
  | append_singleton ms m ih =>
    rw [mergeAll_append]
    show ((empty.mergeAll ms).merge m).known[i]? = _
    rw [known_merge, ih]
    cases declared : Marker.declares i m with
    | true => rw [if_pos rfl, Marker.chosen?_append_of_declares declared]
    | false => rw [if_neg Bool.false_ne_true, Marker.chosen?_append_of_not declared]

/-- **The conflicts of a roster** are those of the markers merged. -/
theorem conflicts_mergeAll (ms : List Marker) :
    (empty.mergeAll ms).conflicts = Marker.conflicts ms := by
  induction ms using List.reverseRecOn with
  | nil => rfl
  | append_singleton ms m ih =>
    rw [mergeAll_append]
    show ((empty.mergeAll ms).merge m).conflicts = _
    rw [conflicts_merge (known_mergeAll ms), ih, Marker.conflicts_append]

theorem counts_mergeAll (r : Roster) (ms : List Marker) :
    (r.mergeAll ms).scanned = r.scanned + ms.length ∧
      (r.mergeAll ms).invalid = r.invalid + ms.countP fun m => m.id.isEmpty := by
  induction ms generalizing r with
  | nil => exact ⟨rfl, rfl⟩
  | cons m ms ih =>
    obtain ⟨scanned, invalid⟩ := ih (r.merge m)
    obtain ⟨scanned', invalid'⟩ := counts_merge r m
    rw [scanned'] at scanned
    rw [invalid'] at invalid
    show ((r.merge m).mergeAll ms).scanned = _ ∧ ((r.merge m).mergeAll ms).invalid = _
    rw [scanned, invalid, List.length_cons, List.countP_cons]
    constructor <;> omega

theorem mem_markers_mergeAll : m ∈ (empty.mergeAll ms).markers ↔ Marker.chosen? ms m.id = some m := by
  rw [markers, List.mem_map]
  constructor
  · rintro ⟨⟨i, k⟩, mem, rfl⟩
    have known := Std.ExtTreeMap.mem_toList_iff_getElem?_eq_some.1 mem
    rw [known_mergeAll] at known
    rw [Marker.id_of_chosen? known, known]
  · intro chosen
    refine ⟨(m.id, m), Std.ExtTreeMap.mem_toList_iff_getElem?_eq_some.2 ?_, rfl⟩
    rw [known_mergeAll, chosen]

/-- One marker is on file for every node that is declared. -/
theorem perm_ids_mergeAll (ms : List Marker) :
    ((empty.mergeAll ms).markers.map Marker.id).Perm (Marker.ids ms) := by
  have nodup := nodup_markers (filed_empty.mergeAll ms)
  refine (List.perm_ext_iff_of_nodup nodup (List.nodup_dedup _)).2 fun i => ?_
  rw [← Marker.ids, List.mem_map, ← Marker.isSome_chosen?, Option.isSome_iff_exists]
  constructor
  · rintro ⟨m, hm, rfl⟩
    exact ⟨m, mem_markers_mergeAll.1 hm⟩
  · rintro ⟨m, chosen⟩
    obtain rfl := Marker.id_of_chosen? chosen
    exact ⟨m, mem_markers_mergeAll.2 chosen, rfl⟩

end Roster

end Signalbox
