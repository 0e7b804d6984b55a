import Signalbox.Proofs.Track.Walk
import Signalbox.Track.Flood

/-!
# What a flood reaches

A flood spreads from its start cells.  Whatever it has reached is connected to one of them, and of a
reached cell that no longer waits all neighbours are reached.  Once no cell waits, the flood
therefore covers the connected parts of the track that hold start cells, and nothing else.

* `Flood.mem_queue_enterAll`      : only cells that are new wait;
* `Flood.Spread.advance?`         : looking at the neighbours of one cell keeps the flood spreading;
* `Flood.Spread.mem_reached_iff`  : what a flood has reached when no cell waits.
-/

set_option autoImplicit false

namespace Signalbox

/-- A cell is connected to one of some cells. -/
def Track.Traced (t : Track) (starts : List Cell) (d : Cell) : Prop :=
  ∃ c ∈ starts, t.Connected c d

namespace Track.Traced

variable {t : Track} {starts : List Cell} {c d : Cell}

theorem trans (h : t.Traced starts c) (hd : t.Connected c d) : t.Traced starts d := by
  obtain ⟨s, hs, hc⟩ := h
  exact ⟨s, hs, hc.trans hd⟩

theorem congr (hc : c ∈ t) (h : t.Connected c d) : t.Traced starts c ↔ t.Traced starts d :=
  ⟨fun k => k.trans h, fun k => k.trans (h.symm hc)⟩

end Track.Traced

namespace Flood

variable {f g : Flood} {t : Track} {starts cs : List Cell} {c d : Cell}

/-! ## Reaching cells -/

theorem mem_reached_enter : d ∈ (f.enter c).reached ↔ d = c ∨ d ∈ f.reached := by
  unfold enter
  split
  · rename_i hc
    exact ⟨Or.inr, fun h => h.elim (fun he => he ▸ hc) id⟩
  · rw [Std.ExtTreeSet.mem_insert, Std.compare_eq_iff_eq, eq_comm]

theorem mem_queue_enter :
    d ∈ (f.enter c).queue.toList ↔ d ∈ f.queue.toList ∨ (d = c ∧ d ∉ f.reached) := by
  unfold enter
  split
  · rename_i hc
    exact ⟨Or.inl, fun h => h.elim id fun ⟨he, hd⟩ => absurd (he ▸ hc) hd⟩
  · rename_i hc
    rw [Queue.toList_push, List.mem_append, List.mem_singleton]
    exact or_congr_right ⟨fun he => ⟨he, he ▸ hc⟩, And.left⟩

theorem mem_reached_enterAll : d ∈ (f.enterAll cs).reached ↔ d ∈ cs ∨ d ∈ f.reached := by
  induction cs generalizing f with
  | nil => simp [enterAll]
  | cons c cs ih =>
    rw [enterAll, List.foldl_cons, ← enterAll, ih, mem_reached_enter, List.mem_cons, or_left_comm,
      or_assoc]

theorem mem_queue_enterAll :
    d ∈ (f.enterAll cs).queue.toList ↔ d ∈ f.queue.toList ∨ (d ∈ cs ∧ d ∉ f.reached) := by
  induction cs generalizing f with
  | nil => simp [enterAll]
  | cons c cs ih =>
    rw [enterAll, List.foldl_cons, ← enterAll, ih, mem_queue_enter, mem_reached_enter, List.mem_cons]
    by_cases he : d = c <;> simp [he]

/-! ## Spreading -/

/-- A flood spreads from some cells: these are reached, whatever is reached is connected to one of
them, and all neighbours of a reached cell are reached unless it waits. -/
structure Spread (t : Track) (starts : List Cell) (f : Flood) : Prop where
  started : ∀ c ∈ starts, c ∈ f.reached
  sound : ∀ d ∈ f.reached, t.Traced starts d
  waiting : ∀ d ∈ f.queue.toList, d ∈ f.reached
  closed : ∀ d ∈ f.reached, d ∈ f.queue.toList ∨ ∀ e ∈ t.neighbors d, e ∈ f.reached

namespace Spread

theorem enterAll_empty (t : Track) (starts : List Cell) :
    Spread t starts (({} : Flood).enterAll starts) := by
  have dry (d : Cell) : d ∉ ({} : Flood).reached := Std.ExtTreeSet.not_mem_empty
  have reached (d : Cell) : d ∈ (({} : Flood).enterAll starts).reached ↔ d ∈ starts := by
    rw [mem_reached_enterAll, or_iff_left (dry d)]
  have waits (d : Cell) : d ∈ (({} : Flood).enterAll starts).queue.toList ↔ d ∈ starts := by
    rw [mem_queue_enterAll, and_iff_left (dry d)]
    exact or_iff_right List.not_mem_nil
  refine ⟨fun c hc => (reached c).2 hc, fun d hd => ?_, fun d hd => ?_, fun d hd => Or.inl ?_⟩
  · exact ⟨d, (reached d).1 hd, .refl t d⟩
  · exact (reached d).2 ((waits d).1 hd)
  · exact (waits d).2 ((reached d).1 hd)

/-- Looking at the neighbours of a waiting cell keeps a flood spreading. -/
theorem advance? (h : Spread t starts f) (ha : f.advance? t = some g) : Spread t starts g := by
  unfold Flood.advance? at ha
  split at ha
  · cases ha
  · rename_i c queue hp
    cases ha
    have queued := Queue.toList_of_pop? hp
    have hc : c ∈ f.reached := h.waiting c (by simp [queued])
    refine ⟨?started, ?sound, ?waiting, ?closed⟩
    case started =>
      intro s hs
      exact mem_reached_enterAll.2 (Or.inr (h.started s hs))
    case sound =>
      intro d hd
      rcases mem_reached_enterAll.1 hd with hn | hd
      · exact (h.sound c hc).trans ⟨1, .one hn⟩
      · exact h.sound d hd
    case waiting =>
      intro d hd
      rcases mem_queue_enterAll.1 hd with hq | ⟨hn, -⟩
      · have waited : d ∈ f.queue.toList := queued ▸ List.mem_cons_of_mem c hq
        exact mem_reached_enterAll.2 (Or.inr (h.waiting d waited))
      · exact mem_reached_enterAll.2 (Or.inl hn)
    case closed =>
      intro d hd
      by_cases hold : d ∈ f.reached
      · rcases h.closed d hold with hq | hall
        · rw [queued, List.mem_cons] at hq
          rcases hq with rfl | hq
          · exact Or.inr fun e he => mem_reached_enterAll.2 (Or.inl he)
          · exact Or.inl (mem_queue_enterAll.2 (Or.inl hq))
        · exact Or.inr fun e he => mem_reached_enterAll.2 (Or.inr (hall e he))
      · have hn := (mem_reached_enterAll.1 hd).resolve_right hold
        exact Or.inl (mem_queue_enterAll.2 (Or.inr ⟨hn, hold⟩))

/-- **When no cell waits, a flood has reached what is connected to its start cells.** -/
theorem mem_reached_iff (h : Spread t starts f) (ha : f.advance? t = none) :
    d ∈ f.reached ↔ t.Traced starts d := by
  have still : f.queue.toList = [] := by
    unfold Flood.advance? at ha
    split at ha
    · rename_i hp
      exact Queue.pop?_eq_none_iff.1 hp
    · cases ha
  refine ⟨h.sound d, ?_⟩
  rintro ⟨c, hc, n, hw⟩
  induction hw with
  | here => exact h.started c hc
  | @step d e n _ he ih =>
    rcases h.closed d ih with hq | hall
    · rw [still] at hq
      cases hq
    · exact hall e he

end Spread

end Flood

end Signalbox
