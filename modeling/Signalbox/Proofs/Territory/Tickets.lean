import Signalbox.Proofs.Territory.Linkage
import Signalbox.Territory.Tickets

/-!
# Tickets are drawn in the order of the queue

A waiting cell is never fewer steps away than one that waits for longer.  So of all tickets the one
given first is also one of fewest steps, and the heap hands out what the queue hands out.  On no more
than `2 ^ 32` cells of track no word wraps around: a trail comes to no cell twice, and the trails to
cells of different origins have no cell in common.

* `Territory.Narrow`     : what waits is fewer steps away than there is track;
* `Ticketed.Follows`     : the tickets stand for what waits, in the same order;
* `Ticketed.InStep.advance` : one unit of work keeps them so;
* `Ticketed.same_turns`  : heap and queue hand out the same cells, unit by unit;
* `Ticketed.ground_of_isDone` : and come to the same in the end.
-/

set_option autoImplicit false

namespace Signalbox

/-! ## Words -/

theorem Reach.toNat_word {r : Reach} (short : r.distance < UInt32.size) :
    r.word.toNat = r.distance :=
  UInt32.toNat_ofNat_of_lt' short

theorem Reach.toNat_word_add {r q : Reach} (short : r.distance + 1 + q.distance < UInt32.size) :
    (r.word + 1 + q.word).toNat = r.distance + 1 + q.distance := by
  have left : r.word.toNat = r.distance := toNat_word (by omega)
  have right : q.word.toNat = q.distance := toNat_word (by omega)
  rw [UInt32.toNat_add, UInt32.toNat_add, left, right]
  show ((r.distance + 1) % UInt32.size + q.distance) % UInt32.size = _
  rw [@Nat.mod_eq_of_lt (r.distance + 1) _ (by omega), Nat.mod_eq_of_lt short]

/-- Fewer steps come first, and of equally many the ticket that was given first. -/
theorem Ticket.compare_eq_lt {k l : Ticket} (short : l.reach.distance < UInt32.size)
    (steps : k.reach.distance ≤ l.reach.distance) (number : k.number < l.number) :
    compare k l = .lt := by
  have left : k.steps.toNat = k.reach.distance := Reach.toNat_word (by omega)
  have right : l.steps.toNat = l.reach.distance := Reach.toNat_word short
  rw [Ticket.compare_def, Ordering.then_eq_lt, Std.compare_eq_lt, Std.compare_eq_eq_iff_eq,
    Std.compare_eq_lt, UInt32.lt_iff_toNat_lt, ← UInt32.toNat_inj]
  omega

namespace Territory

variable {s : Territory} {c d : Cell} {r q : Reach} {o : Origin} {rest : Queue (Cell × Reach)}

/-! ## The ground -/

/-- A territory without what waits. -/
def ground (s : Territory) : Territory := { s with queue := .empty }

theorem ground_sight (s : Territory) (c : Cell) (o : Origin) :
    (s.sight c o).ground = s.ground.sight c o := by
  unfold sight
  by_cases junction : s.track.isJunction c = true
  · rw [if_pos junction, if_pos (show s.ground.track.isJunction c = true from junction)]
    rfl
  · rw [if_neg junction, if_neg (show ¬ s.ground.track.isJunction c = true from junction)]

theorem ground_traceBack (s : Territory) (o : Origin) (arm : Cell) (trail : List Cell) :
    (s.traceBack o arm trail).ground = s.ground.traceBack o arm trail := by
  induction trail generalizing s arm with
  | nil => rfl
  | cons c trail ih =>
    have junction : s.ground.track.isJunction c = s.track.isJunction c := rfl
    have met : s.ground.metBeyond c = s.metBeyond c := rfl
    simp only [traceBack, junction, met]
    split
    · split
      · rfl
      · exact ih _ c
    · exact ih s c

theorem ground_touch (s : Territory) (n : Nat) (c : Cell) (r : Reach) (d : Cell) (q : Reach) :
    (s.touch n c r d q).ground = s.ground.touch n c r d q := by
  simp only [touch, ground_traceBack, ground_sight]
  rfl

/-! ## Short words -/

/-- What waits is fewer steps away than there is track. -/
def Narrow (s : Territory) : Prop := ∀ e ∈ s.queue.toList, e.2.distance < s.track.size

theorem narrow_start {t : Track} {ns : List Site} (laid : Laid (start t ns)) :
    Narrow (start t ns) := by
  intro e he
  obtain ⟨⟨anchored, -⟩, none⟩ := (mem_queue_start t ns).1 he
  have onTrack : e.1 ∈ (start t ns).track := laid e.2.origin e.1 (by rwa [origins_start])
  have some_track := Track.length_le_size (List.nodup_singleton e.1)
    fun c hc => (List.mem_singleton.1 hc) ▸ onTrack
  rw [Reach.distance, none]
  exact some_track

theorem Narrow.advance (h : Narrow s) (frontier : Frontier s) (laid : s.Laid)
    (busy : s.isDone = false) : Narrow s.advance := by
  obtain ⟨c, r, rest, hq, ⟨-, he⟩ | ⟨hc, he⟩⟩ := advance_cases busy
  · rw [he]
    intro e hr
    refine h e ?_
    rw [hq]
    exact List.mem_cons_of_mem _ hr
  · rw [he]
    intro e hr
    rw [track_settle]
    rcases mem_queue_settle.1 hr with hr | ⟨hd, free, hr⟩
    · refine h e ?_
      rw [hq]
      exact List.mem_cons_of_mem _ hr
    · have settled := frontier.settle hq hc
      have owned : ((s.behind rest).settle c r).owners[c]? = some r := by
        rw [getElem?_owners_settle, if_pos rfl]
      have near := settled.next_lt_size (laid.settle rest c r) owned (d := e.1)
        (by rw [track_settle]; exact Track.mem_of_mem_neighbors hd) (by rwa [owners_settle])
      rw [hr, Reach.distance_next]
      rwa [track_settle] at near

theorem finished_iterate (s : Territory) (n : Nat) :
    Stepwise.finished (Territory.advance^[n] s) = Stepwise.finished s := by
  induction n generalizing s with
  | zero => rfl
  | succ n ih =>
    rw [Function.iterate_succ_apply, ih]
    cases busy : s.isDone with
    | true => rw [advance_of_done busy]
    | false => exact Stepwise.finished_advance busy

theorem iterate_eq_taken {t : Track} {ns : List Site} {n : Nat}
    (done : (Territory.advance^[n] (start t ns)).isDone = true) :
    Territory.advance^[n] (start t ns) = taken t ns := by
  rw [taken, ← finished_iterate _ n, Stepwise.finished_of_done done]

end Territory

/-! ## Tickets and queue -/

namespace Ticketed

variable {e : Ticketed} {s : Territory} {c d : Cell} {r q : Reach}

/-- The tickets in the heap stand for what waits: in the order in which they were given they name
the cells and reaches that wait. -/
structure Follows (e : Ticketed) (s : Territory) : Prop where
  ground : e.ground = s.ground
  waiting : ∃ ks : List Ticket, e.heap.entries.Perm ks ∧
    (ks.Pairwise fun k l => k.number < l.number) ∧
    ks.map (fun k => (k.cell, k.reach)) = s.queue.toList
  given : ∀ k ∈ e.heap.entries, k.number < e.given

theorem Follows.owners (h : Follows e s) : e.ground.owners = s.owners := by
  rw [h.ground]
  rfl

theorem Follows.track (h : Follows e s) : e.ground.track = s.track := by
  rw [h.ground]
  rfl

theorem Follows.issue (h : Follows e s) (c : Cell) (r : Reach) :
    Follows (e.issue c r) (s.enqueue c r) := by
  obtain ⟨ks, perm, ascending, cells⟩ := h.waiting
  refine ⟨h.ground, ⟨ks ++ [⟨e.given, c, r⟩], ?perm, ?ascending, ?cells⟩, ?given⟩
  case perm => exact (perm.cons _).trans (List.perm_append_singleton _ ks).symm
  case ascending =>
    refine List.pairwise_append.2 ⟨ascending, List.pairwise_singleton _ _, fun k hk l hl => ?_⟩
    rw [List.mem_singleton.1 hl]
    exact h.given k (perm.mem_iff.2 hk)
  case cells => simp [Territory.enqueue, cells]
  case given =>
    intro k hk
    rcases List.mem_cons.1 hk with rfl | hk
    · exact Nat.lt_succ_self _
    · exact Nat.lt_succ_of_lt (h.given k hk)

/-- What is noted on the ground lets nothing wait. -/
theorem Follows.note {g t : Territory} (h : Follows e s) (ground : g = t.ground)
    (queue : t.queue = s.queue) : Follows { e with ground := g } t :=
  ⟨ground, by rw [queue]; exact h.waiting, h.given⟩

theorem Follows.plant (h : Follows e s) (claimed : Std.ExtTreeMap Cell Origin)
    (anchors : List (Origin × Cell)) :
    Follows (e.plant claimed anchors) (s.plant claimed anchors) := by
  induction anchors generalizing e s claimed with
  | nil => exact h
  | cons a anchors ih =>
    obtain ⟨o, c⟩ := a
    unfold Ticketed.plant Territory.plant
    cases claimed[c]? with
    | none => exact ih (h.issue c ⟨o, []⟩) _
    | some p =>
      refine ih ?_ claimed
      split
      · exact h
      · exact h.note (by rw [h.ground]; rfl) rfl

theorem follows_start (t : Track) (ns : List Site) : Follows (start t ns) (Territory.start t ns) :=
  Follows.plant ⟨rfl, ⟨[], .nil, .nil, rfl⟩, fun _ hk => by cases hk⟩ ∅ _

/-- A cell beside a newly owned one, where the length of a contact is short. -/
theorem Follows.approach (h : Follows e s)
    (short : ∀ q, s.owners[d]? = some q → q.origin ≠ r.origin →
      r.distance + 1 + q.distance < UInt32.size) :
    Follows (e.approach c r d) (Territory.approach c r s d) := by
  unfold Ticketed.approach Territory.approach
  rw [h.owners]
  cases hd : s.owners[d]? with
  | none => exact h.issue d _
  | some q =>
    simp only
    split
    · exact h
    · rename_i other
      have length := Reach.toNat_word_add (short q hd other)
      refine h.note ?_ (Territory.SameGround.meet s c r d q).queue
      rw [length, h.ground, Territory.meet, Territory.ground_touch]

theorem Follows.foldl_approach (h : Follows e s) (ds : List Cell)
    (short : ∀ d ∈ ds, ∀ q, s.owners[d]? = some q → q.origin ≠ r.origin →
      r.distance + 1 + q.distance < UInt32.size) :
    Follows (ds.foldl (Ticketed.approach c r) e) (ds.foldl (Territory.approach c r) s) := by
  induction ds generalizing e s with
  | nil => exact h
  | cons d ds ih =>
    refine ih (h.approach (short d (List.mem_cons_self ..))) fun x hx => ?_
    rw [(Territory.ground_approach c r s d).2.2]
    exact short x (List.mem_cons_of_mem _ hx)

theorem Follows.settle (h : Follows e s)
    (short : ∀ d ∈ s.track.neighbors c, ∀ q, (s.owners.insert c r)[d]? = some q →
      q.origin ≠ r.origin → r.distance + 1 + q.distance < UInt32.size) :
    Follows (e.settle c r) (s.settle c r) := by
  have sighted := Territory.SameGround.sight { s with owners := s.owners.insert c r } c r.origin
  unfold Ticketed.settle Territory.settle
  rw [h.track]
  refine Follows.foldl_approach ?_ _ fun d hd => by rw [sighted.owners]; exact short d hd
  refine h.note ?_ sighted.queue
  rw [Territory.ground_sight, h.ground]
  rfl

/-! ## Turns -/

/-- Tickets in step with a territory whose words do not wrap around. -/
structure InStep (e : Ticketed) (s : Territory) : Prop where
  follows : Follows e s
  frontier : s.Frontier
  laid : s.Laid
  narrow : s.Narrow
  small : s.track.size ≤ UInt32.size

theorem Follows.pop?_eq_none (h : Follows e s) (done : s.isDone = true) : e.heap.pop? = none := by
  obtain ⟨ks, perm, -, cells⟩ := h.waiting
  rw [Queue.isEmpty_iff.1 done, List.map_eq_nil_iff] at cells
  rw [cells] at perm
  exact Heap.pop?_eq_none_iff.2 perm.eq_nil

/-- **The heap hands out what waits for longest.** -/
theorem InStep.pop? (h : InStep e s) {rest : Queue (Cell × Reach)}
    (front : s.queue.toList = (c, r) :: rest.toList) :
    ∃ k heap, e.heap.pop? = some (k, heap) ∧ k.cell = c ∧ k.reach = r ∧
      Follows (e.behind heap) (s.behind rest) := by
  obtain ⟨ks, perm, ascending, cells⟩ := h.follows.waiting
  rw [front] at cells
  cases ks with
  | nil => cases cells
  | cons k ks =>
    rw [List.map_cons, List.cons.injEq, Prod.mk.injEq] at cells
    obtain ⟨⟨cell, reach⟩, others⟩ := cells
    have ranks := h.frontier.sorted
    rw [front, List.pairwise_cons] at ranks
    have first : ∀ l ∈ ks, compare k l = .lt := by
      intro l hl
      have waits : (l.cell, l.reach) ∈ rest.toList := by
        rw [← others]
        exact List.mem_map_of_mem hl
      have short := h.narrow (l.cell, l.reach) (by rw [front]; exact List.mem_cons_of_mem _ waits)
      refine Ticket.compare_eq_lt (Nat.lt_of_lt_of_le short h.small) ?_
        ((List.pairwise_cons.1 ascending).1 l hl)
      rw [reach]
      exact Rank.steps_le (ranks.1 _ waits)
    obtain ⟨heap, popped, left⟩ := Heap.pop?_of_first perm first
    refine ⟨k, heap, popped, cell, reach, ?_,
      ⟨ks, left, (List.pairwise_cons.1 ascending).2, others⟩, fun l hl => ?_⟩
    · rw [behind, h.follows.ground]
      rfl
    exact h.follows.given l (perm.mem_iff.2 (List.mem_cons_of_mem _ (left.mem_iff.1 hl)))

/-- One unit of work keeps the tickets on the ground, and in the order in which cells wait. -/
theorem InStep.follows_advance (h : InStep e s) : Follows e.advance s.advance := by
  cases busy : s.isDone with
  | true =>
    rw [Territory.advance_of_done busy, Ticketed.advance, h.follows.pop?_eq_none busy]
    exact h.follows
  | false =>
    obtain ⟨c, r, rest, front, unit⟩ := Territory.advance_cases busy
    obtain ⟨k, heap, popped, rfl, rfl, follows⟩ := h.pop? front
    simp only [Ticketed.advance, popped, h.follows.owners]
    rcases unit with ⟨owned, next⟩ | ⟨free, next⟩
    · rw [if_pos owned, next]
      exact follows
    · rw [if_neg free, next]
      have settled := h.frontier.settle front free
      have here : ((s.behind rest).settle k.cell k.reach).owners[k.cell]? = some k.reach := by
        rw [Territory.getElem?_owners_settle, if_pos rfl]
      refine follows.settle fun d _ q hd other => ?_
      have far := settled.touch_lt_size (h.laid.settle rest k.cell k.reach) here
        (by rw [Territory.owners_settle]; exact hd) other
      rw [Territory.track_settle] at far
      exact Nat.lt_of_lt_of_le far h.small

/-- **One unit of work keeps the tickets in step.** -/
theorem InStep.advance (h : InStep e s) : InStep e.advance s.advance := by
  cases busy : s.isDone with
  | true =>
    have follows := h.follows_advance
    rw [Territory.advance_of_done busy] at follows ⊢
    exact ⟨follows, h.frontier, h.laid, h.narrow, h.small⟩
  | false =>
    exact ⟨h.follows_advance, h.frontier.advance busy, h.laid.advance,
      h.narrow.advance h.frontier h.laid busy, (Territory.ground_advance s).1 ▸ h.small⟩

/-- So they are in step after any number of units. -/
theorem InStep.iterate (h : InStep e s) (n : Nat) :
    InStep (Ticketed.advance^[n] e) (Territory.advance^[n] s) := by
  induction n with
  | zero => exact h
  | succ n ih =>
    rw [Function.iterate_succ_apply', Function.iterate_succ_apply']
    exact ih.advance

variable {t : Track} {ns : List Site}

theorem inStep_start (laid : (Territory.start t ns).Laid) (small : t.size ≤ UInt32.size) :
    InStep (start t ns) (Territory.start t ns) where
  follows := follows_start t ns
  frontier := Territory.frontier_start t ns
  laid := laid
  narrow := Territory.narrow_start laid
  small := by rwa [Territory.track_start]

/-- **Heap and queue hand out the same cells.**  On no more than `2 ^ 32` cells of track, after any
number of units all that is known is the same, and the next turn goes to the same cell. -/
theorem same_turns (laid : (Territory.start t ns).Laid) (small : t.size ≤ UInt32.size) (n : Nat) :
    let e := Ticketed.advance^[n] (start t ns)
    let s := Territory.advance^[n] (Territory.start t ns)
    e.ground = s.ground ∧
      e.heap.pop?.map (fun p => (p.1.cell, p.1.reach)) = s.queue.pop?.map Prod.fst := by
  intro e s
  have h : InStep e s := (inStep_start laid small).iterate n
  refine ⟨h.follows.ground, ?_⟩
  cases busy : s.isDone with
  | true =>
    rw [h.follows.pop?_eq_none busy, Queue.pop?_eq_none_iff.2 (Queue.isEmpty_iff.1 busy)]
    rfl
  | false =>
    obtain ⟨⟨c, r⟩, rest, popped⟩ := Queue.pop?_isSome_of_isEmpty_eq_false busy
    obtain ⟨k, heap, drawn, rfl, rfl, -⟩ := h.pop? (Queue.toList_of_pop? popped)
    rw [drawn, popped]
    rfl

/-- **Tickets come to the same links and the same missing switchers**: when no ticket is left, what
is known is what the queue comes to. -/
theorem ground_of_isDone (laid : (Territory.start t ns).Laid) (small : t.size ≤ UInt32.size) {n : Nat}
    (done : (Ticketed.advance^[n] (start t ns)).isDone = true) :
    (Ticketed.advance^[n] (start t ns)).ground = (Territory.taken t ns).ground := by
  have h := (inStep_start laid small).iterate n
  have last : (Territory.advance^[n] (Territory.start t ns)).isDone = true := by
    obtain ⟨ks, perm, -, cells⟩ := h.follows.waiting
    have empty : ks = [] := by
      rw [List.isEmpty_iff.1 done] at perm
      exact perm.symm.eq_nil
    rw [empty] at cells
    exact Queue.isEmpty_iff.2 cells.symm
  rw [h.follows.ground, Territory.iterate_eq_taken last]

end Ticketed

end Signalbox
