import Signalbox.Proofs.Stepwise
import Signalbox.Proofs.Territory.Planting

/-!
# Territory grows in ranks

Cells are taken in the order of their ranks: first by the number of steps, then by the origin.  What
waits spans two successive ranks at most, and nothing that is owned has a later rank than anything
that waits.  So the first origin whose turn comes at a cell is the one that gets there in the fewest
steps, and of several such origins the first.

* `Territory.Frontier` : the invariant of taking territory;
* `Territory.Frontier.advance` : every unit of work keeps it;
* `Territory.Frontier.owned_of_arrives` : in the end every cell that an origin gets to is owned, by
  no later rank;
* `Territory.Frontier.arrives` : an owner gets to its cells in the number of steps noted there.
-/

set_option autoImplicit false

namespace Signalbox

/-! ## Ranks -/

/-- How late a cell is reached: after how many steps, and by which origin. -/
structure Rank where
  steps : Nat
  origin : Origin

namespace Rank

variable {a b c : Rank}

instance : LE Rank :=
  ⟨fun a b => a.steps < b.steps ∨ (a.steps = b.steps ∧ (compare a.origin b.origin).isLE = true)⟩

theorem le_refl (a : Rank) : a ≤ a := Or.inr ⟨rfl, by simp⟩

theorem le_trans (h : a ≤ b) (k : b ≤ c) : a ≤ c := by
  rcases h with h | ⟨h, ho⟩ <;> rcases k with k | ⟨k, ko⟩
  · exact Or.inl (Nat.lt_trans h k)
  · exact Or.inl (k ▸ h)
  · exact Or.inl (h ▸ k)
  · exact Or.inr ⟨h.trans k, Std.TransCmp.isLE_trans ho ko⟩

theorem steps_le (h : a ≤ b) : a.steps ≤ b.steps := by
  rcases h with h | ⟨h, -⟩ <;> omega

/-- The rank one step further on. -/
def next (a : Rank) : Rank := ⟨a.steps + 1, a.origin⟩

theorem le_next (a : Rank) : a ≤ a.next := Or.inl (Nat.lt_succ_self _)

theorem next_le_next (h : a ≤ b) : a.next ≤ b.next := by
  rcases h with h | ⟨h, ho⟩
  · exact Or.inl (Nat.succ_lt_succ h)
  · exact Or.inr ⟨congrArg (· + 1) h, ho⟩

end Rank

/-- The rank of a reach. -/
def Reach.rank (r : Reach) : Rank := ⟨r.distance, r.origin⟩

@[simp] theorem Reach.rank_next (r : Reach) (c : Cell) : (r.next c).rank = r.rank.next := rfl

namespace Territory

variable {s : Territory} {c d : Cell} {r q : Reach} {a : Rank} {rest : Queue (Cell × Reach)}

/-! ## The invariant -/

/-- An origin gets to a cell: so many steps lead there from one of its anchors. -/
def Arrives (s : Territory) (a : Rank) (c : Cell) : Prop :=
  ∃ b, Origin.Anchored s.origins a.origin b ∧ s.track.Walk b c a.steps

/-- The cell is owned by a reach, or it waits with it. -/
def Reached (s : Territory) (c : Cell) (r : Reach) : Prop :=
  s.owners[c]? = some r ∨ (c, r) ∈ s.queue.toList

/-- The cell was reached no later than by a rank. -/
def Covered (s : Territory) (c : Cell) (a : Rank) : Prop :=
  ∃ r : Reach, s.Reached c r ∧ r.rank ≤ a

/-- A reach starts at an anchor, or goes on from a cell of the same origin. -/
def Leads (s : Territory) (c : Cell) (r : Reach) : Prop :=
  match r.trail with
  | [] => Origin.Anchored s.origins r.origin c
  | p :: trail => s.owners[p]? = some ⟨r.origin, trail⟩ ∧ c ∈ s.track.neighbors p

/-- What holds between any two units of taking territory. -/
structure Frontier (s : Territory) : Prop where
  leads (c : Cell) (r : Reach) : s.Reached c r → s.Leads c r
  sorted : s.queue.toList.Pairwise fun e f => e.2.rank ≤ f.2.rank
  narrow : ∀ e ∈ s.queue.toList, ∀ f ∈ s.queue.toList, f.2.rank ≤ e.2.rank.next
  passed (c : Cell) (r : Reach) : s.owners[c]? = some r → ∀ e ∈ s.queue.toList, r.rank ≤ e.2.rank
  planted (o : Origin) (c : Cell) : Origin.Anchored s.origins o c → s.Covered c ⟨0, o⟩
  relaxed (c : Cell) (r : Reach) :
    s.owners[c]? = some r → ∀ d ∈ s.track.neighbors c, s.Covered d r.rank.next

theorem Frontier.arrives (h : Frontier s) (hr : s.Reached c r) : s.Arrives r.rank c := by
  obtain ⟨o, trail⟩ := r
  induction trail generalizing c with
  | nil => exact ⟨c, h.leads c _ hr, .here⟩
  | cons p trail ih =>
    obtain ⟨hp, hc⟩ := h.leads c _ hr
    obtain ⟨b, hb, hw⟩ := ih (Or.inl hp)
    exact ⟨b, hb, .step hw hc⟩

/-! ## Dropping an owned cell -/

theorem Covered.drop (h : Frontier s) (hq : s.queue.toList = (c, r) :: rest.toList)
    (hc : c ∈ s.owners) (hd : s.Covered d a) : (s.behind rest).Covered d a := by
  obtain ⟨q, hr | hr, hle⟩ := hd
  · exact ⟨q, Or.inl hr, hle⟩
  · have front := hr
    rw [hq] at hr
    rcases List.mem_cons.1 hr with he | hr
    · cases he
      obtain ⟨p, hp⟩ := mem_iff_lookup.1 hc
      exact ⟨p, Or.inl hp, Rank.le_trans (h.passed c p hp _ front) hle⟩
    · exact ⟨q, Or.inr hr, hle⟩

theorem Frontier.drop (h : Frontier s) (hq : s.queue.toList = (c, r) :: rest.toList)
    (hc : c ∈ s.owners) : Frontier (s.behind rest) := by
  have mem (e : Cell × Reach) (he : e ∈ rest.toList) : e ∈ s.queue.toList := by
    rw [hq]
    exact List.mem_cons_of_mem _ he
  refine ⟨?leads, ?sorted, ?narrow, ?passed, ?planted, ?relaxed⟩
  case leads =>
    intro d q hr
    exact h.leads d q (hr.imp id fun hr => mem _ hr)
  case sorted =>
    have sorted := h.sorted
    rw [hq] at sorted
    exact (List.pairwise_cons.1 sorted).2
  case narrow =>
    exact fun e he f hf => h.narrow e (mem e he) f (mem f hf)
  case passed =>
    exact fun d q hd e he => h.passed d q hd e (mem e he)
  case planted =>
    exact fun o d hd => (h.planted o d hd).drop h hq hc
  case relaxed =>
    exact fun d q hd e he => (h.relaxed d q hd e he).drop h hq hc

/-! ## Settling a cell -/

theorem reached_settle_of_reached (hq : s.queue.toList = (c, r) :: rest.toList)
    (hc : c ∉ s.owners) (hd : s.Reached d q) : ((s.behind rest).settle c r).Reached d q := by
  unfold Reached
  rw [getElem?_owners_settle, mem_queue_settle]
  rcases hd with hd | hd
  · have hne : c ≠ d := by
      rintro rfl
      exact hc (mem_iff_lookup.2 ⟨q, hd⟩)
    rw [if_neg hne]
    exact Or.inl hd
  · rw [hq] at hd
    rcases List.mem_cons.1 hd with he | hd
    · cases he
      exact Or.inl (if_pos rfl)
    · exact Or.inr (Or.inl hd)

theorem Covered.settle (hq : s.queue.toList = (c, r) :: rest.toList) (hc : c ∉ s.owners)
    (hd : s.Covered d a) : ((s.behind rest).settle c r).Covered d a := by
  obtain ⟨q, hr, hle⟩ := hd
  exact ⟨q, reached_settle_of_reached hq hc hr, hle⟩

/-- What is reached when a cell is settled: what was, and the neighbours over the cell. -/
theorem reached_settle (hq : s.queue.toList = (c, r) :: rest.toList)
    (hd : ((s.behind rest).settle c r).Reached d q) :
    s.Reached d q ∨ (d ∈ s.track.neighbors c ∧ q = r.next c) := by
  unfold Reached at hd
  rw [getElem?_owners_settle, mem_queue_settle] at hd
  rcases hd with hd | hd | ⟨hn, -, he⟩
  · by_cases hcd : c = d
    · subst hcd
      rw [if_pos rfl] at hd
      cases hd
      refine Or.inl (Or.inr ?_)
      rw [hq]
      exact List.mem_cons_self ..
    · rw [if_neg hcd] at hd
      exact Or.inl (Or.inl hd)
  · refine Or.inl (Or.inr ?_)
    rw [hq]
    exact List.mem_cons_of_mem _ hd
  · exact Or.inr ⟨hn, he⟩

theorem Leads.settle (hc : c ∉ s.owners) (h : s.Leads d q) :
    ((s.behind rest).settle c r).Leads d q := by
  obtain ⟨o, trail⟩ := q
  cases trail with
  | nil =>
    have origins : ((s.behind rest).settle c r).origins = s.origins := origins_settle _ c r
    simp only [Leads, origins]
    exact h
  | cons p trail =>
    have track : ((s.behind rest).settle c r).track = s.track := track_settle _ c r
    obtain ⟨hp, hd⟩ := h
    have hne : c ≠ p := by
      rintro rfl
      exact hc (mem_iff_lookup.2 ⟨_, hp⟩)
    simp only [Leads, getElem?_owners_settle, if_neg hne, track]
    exact ⟨hp, hd⟩

/-- The neighbours of a settled cell are owned, or they wait now. -/
theorem Frontier.covered_of_neighbor (h : Frontier s) (hq : s.queue.toList = (c, r) :: rest.toList)
    (hd : d ∈ s.track.neighbors c) :
    ((s.behind rest).settle c r).Covered d r.rank.next := by
  have head : (c, r) ∈ s.queue.toList := by rw [hq]; exact List.mem_cons_self ..
  by_cases ho : d ∈ s.owners.insert c r
  · obtain ⟨p, hp⟩ := mem_iff_lookup.1 ho
    refine ⟨p, Or.inl (by rw [owners_settle]; exact hp), ?_⟩
    rw [lookup_insert] at hp
    by_cases hcd : c = d
    · rw [if_pos hcd] at hp
      cases hp
      exact Rank.le_next _
    · rw [if_neg hcd] at hp
      exact Rank.le_trans (h.passed d p hp _ head) (Rank.le_next _)
  · exact ⟨r.next c, Or.inr (mem_queue_settle.2 (Or.inr ⟨hd, ho, rfl⟩)), Rank.le_refl _⟩

theorem Frontier.settle (h : Frontier s) (hq : s.queue.toList = (c, r) :: rest.toList)
    (hc : c ∉ s.owners) : Frontier ((s.behind rest).settle c r) := by
  have origins : ((s.behind rest).settle c r).origins = s.origins := origins_settle _ c r
  have track : ((s.behind rest).settle c r).track = s.track := track_settle _ c r
  have head : (c, r) ∈ s.queue.toList := by rw [hq]; exact List.mem_cons_self ..
  have mem {e : Cell × Reach} (he : e ∈ rest.toList) : e ∈ s.queue.toList := by
    rw [hq]
    exact List.mem_cons_of_mem _ he
  have sorted := h.sorted
  rw [hq, List.pairwise_cons] at sorted
  -- every waiting cell is an old one, or a neighbour of rank `r.rank.next`
  have bound {e : Cell × Reach} (he : e ∈ ((s.behind rest).settle c r).queue.toList) :
      r.rank ≤ e.2.rank ∧ e.2.rank ≤ r.rank.next := by
    rcases mem_queue_settle.1 he with he | ⟨-, -, he⟩
    · exact ⟨sorted.1 e he, h.narrow _ head e (mem he)⟩
    · rw [he]
      exact ⟨Rank.le_next _, Rank.le_refl _⟩
  refine ⟨?leads, ?sorted, ?narrow, ?passed, ?planted, ?relaxed⟩
  case leads =>
    intro d q hd
    rcases reached_settle hq hd with hd | ⟨hn, rfl⟩
    · exact (h.leads d q hd).settle hc
    · show _ ∧ _
      rw [getElem?_owners_settle, if_pos rfl, track]
      exact ⟨rfl, hn⟩
  case sorted =>
    rw [queue_settle, List.pairwise_append]
    refine ⟨sorted.2, ?_, ?_⟩
    · exact List.pairwise_map.2 (List.pairwise_of_forall fun _ _ => Rank.le_refl _)
    · intro e he f hf
      obtain ⟨d, -, rfl⟩ := List.mem_map.1 hf
      exact h.narrow _ head e (mem he)
  case narrow =>
    intro e he f hf
    exact Rank.le_trans (bound hf).2 (Rank.next_le_next (bound he).1)
  case passed =>
    intro d q hd e he
    rw [getElem?_owners_settle] at hd
    by_cases hcd : c = d
    · rw [if_pos hcd] at hd
      cases hd
      exact (bound he).1
    · rw [if_neg hcd] at hd
      exact Rank.le_trans (h.passed d q hd _ head) (bound he).1
  case planted =>
    intro o d hd
    rw [origins] at hd
    exact (h.planted o d hd).settle hq hc
  case relaxed =>
    intro d q hd e he
    rw [track] at he
    rw [getElem?_owners_settle] at hd
    by_cases hcd : c = d
    · subst hcd
      rw [if_pos rfl] at hd
      cases hd
      exact h.covered_of_neighbor hq he
    · rw [if_neg hcd] at hd
      exact (h.relaxed d q hd e he).settle hq hc

/-! ## Whole runs -/

theorem ground_advance (s : Territory) :
    s.advance.track = s.track ∧ s.advance.origins = s.origins := by
  cases hs : s.isDone with
  | true =>
    simp [advance_of_done hs]
  | false =>
    obtain ⟨c, r, rest, -, ⟨-, he⟩ | ⟨-, he⟩⟩ := advance_cases hs
    · rw [he]
      exact ⟨rfl, rfl⟩
    · rw [he]
      exact ⟨track_settle _ c r, origins_settle _ c r⟩

theorem ground_finished (s : Territory) :
    (Stepwise.finished s).track = s.track ∧ (Stepwise.finished s).origins = s.origins :=
  Stepwise.finished_induction (P := fun u => u.track = s.track ∧ u.origins = s.origins)
    (fun u _ h => ⟨(ground_advance u).1.trans h.1, (ground_advance u).2.trans h.2⟩) ⟨rfl, rfl⟩

/-- **Every unit of work keeps the invariant.** -/
theorem Frontier.advance (hs : s.isDone = false) (h : Frontier s) : Frontier s.advance := by
  obtain ⟨c, r, rest, hq, ⟨hc, he⟩ | ⟨hc, he⟩⟩ := advance_cases hs
  · rw [he]
    exact h.drop hq hc
  · rw [he]
    exact h.settle hq hc

theorem frontier_start (t : Track) (ns : List Site) : Frontier (start t ns) := by
  have zero {e : Cell × Reach} (he : e ∈ (start t ns).queue.toList) :
      e.2.rank = ⟨0, e.2.origin⟩ := by
    obtain ⟨-, ht⟩ := (mem_queue_start t ns).1 he
    simp [Reach.rank, Reach.distance, ht]
  refine ⟨?leads, ?sorted, ?narrow, ?passed, ?planted, ?relaxed⟩
  case leads =>
    intro c r hr
    rcases hr with hr | hr
    · simp at hr
    · obtain ⟨ho, ht⟩ := (mem_queue_start t ns).1 hr
      simp only at ht
      simp only [Leads, ht, origins_start]
      exact ho.1
  case sorted =>
    apply (sorted_start t ns).imp_of_mem
    intro e f he hf hle
    rw [zero he, zero hf]
    exact Or.inr ⟨rfl, hle⟩
  case narrow =>
    intro e he f hf
    rw [zero he, zero hf]
    exact Or.inl Nat.zero_lt_one
  case passed =>
    intro c r hr
    simp at hr
  case planted =>
    intro o c ho
    rw [origins_start] at ho
    obtain ⟨p, hp⟩ := exists_firstAt ho
    exact ⟨⟨p, []⟩, Or.inr ((mem_queue_start t ns).2 ⟨hp, rfl⟩), Or.inr ⟨rfl, hp.2 o ho⟩⟩
  case relaxed =>
    intro c r hr
    simp at hr

theorem Frontier.iterate (h : Frontier s) (n : Nat) : Frontier (Territory.advance^[n] s) := by
  induction n generalizing s with
  | zero => exact h
  | succ n ih =>
    rw [Function.iterate_succ_apply]
    cases hs : s.isDone with
    | true => exact ih (by rwa [advance_of_done hs])
    | false => exact ih (h.advance hs)

/-- The territory of some nodes when it is all taken. -/
def taken (t : Track) (ns : List Site) : Territory := Stepwise.finished (start t ns)

theorem isDone_taken (t : Track) (ns : List Site) : (taken t ns).isDone = true :=
  Stepwise.isDone_finished (start t ns)

@[simp] theorem track_taken (t : Track) (ns : List Site) : (taken t ns).track = t :=
  (ground_finished _).1.trans (track_start t ns)

@[simp] theorem origins_taken (t : Track) (ns : List Site) :
    (taken t ns).origins = Origin.ofNodes ns :=
  (ground_finished _).2.trans (origins_start t ns)

theorem frontier_taken (t : Track) (ns : List Site) : Frontier (taken t ns) :=
  Stepwise.finished_induction (fun _ hs h => h.advance hs) (frontier_start t ns)

/-- **In the end every cell that an origin gets to is owned, by no later rank.** -/
theorem Frontier.owned_of_arrives (h : Frontier s) (hs : s.isDone = true) (ha : s.Arrives a c) :
    ∃ r, s.owners[c]? = some r ∧ r.rank ≤ a := by
  have empty : s.queue.toList = [] := Queue.isEmpty_iff.1 hs
  have owned {d : Cell} {b : Rank} (hd : s.Covered d b) :
      ∃ r, s.owners[d]? = some r ∧ r.rank ≤ b := by
    obtain ⟨r, hr | hr, hle⟩ := hd
    · exact ⟨r, hr, hle⟩
    · rw [empty] at hr
      cases hr
  obtain ⟨b, hb, hw⟩ := ha
  obtain ⟨n, o⟩ := a
  simp only at hb hw
  induction hw with
  | here => exact owned (h.planted o b hb)
  | @step c d n hw hd ih =>
    obtain ⟨r, hr, hle⟩ := ih
    obtain ⟨q, hq, hqle⟩ := owned (h.relaxed c r hr d hd)
    exact ⟨q, hq, Rank.le_trans hqle (Rank.next_le_next hle)⟩

end Territory

end Signalbox
