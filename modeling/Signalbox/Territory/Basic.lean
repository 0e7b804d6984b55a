import Signalbox.Allowance
import Signalbox.Numeral.Total
import Signalbox.Queue
import Signalbox.Territory.Origin
import Signalbox.Track.Basic

/-!
# Territory

All origins take territory at the same pace.  A cell that an origin has reached waits in a queue;
the first origin whose turn comes at a cell owns it and goes on to the neighbours.  Where two
territories touch, their origins are directly connected, at the sum of the distances on both sides.
Since no origin passes through the territory of another, only direct connections are found.

While territory is taken, junctions are watched: which origins were seen at them, and through which
of their arms other origins were met further out.  One unit of work handles one waiting cell.

* `Territory.work_advance` : every unit lowers a bound that counts unowned track.
-/

set_option autoImplicit false

namespace Signalbox

/-- How a cell was reached: by which origin, and over which cells, the last of them first. -/
structure Reach where
  origin : Origin
  trail : List Cell
deriving DecidableEq, Inhabited

/-- The number of steps from an anchor of the origin. -/
def Reach.distance (r : Reach) : Nat := r.trail.length

/-- Another origin met beyond a junction, and the cell behind the junction on the way to it. -/
structure Encounter where
  arm : Cell
  other : Origin
deriving DecidableEq, Inhabited

namespace Encounter

instance : Ord Encounter := ⟨compareLex (compareOn Encounter.arm) (compareOn Encounter.other)⟩

instance : Std.TransOrd Encounter :=
  inferInstanceAs (Std.TransCmp (compareLex (compareOn Encounter.arm) (compareOn Encounter.other)))

theorem compare_def (a b : Encounter) :
    compare a b = (compare a.arm b.arm).then (compare a.other b.other) := rfl

instance : Std.LawfulEqOrd Encounter where
  eq_of_compare {a b} h := by
    rw [compare_def, Ordering.then_eq_eq] at h
    cases a; cases b
    simp_all

end Encounter

/-- The territory taken so far. -/
structure Territory where
  track : Track
  origins : Std.ExtTreeMap Origin (List Cell)
  /-- The cells whose turn is still to come. -/
  queue : Queue (Cell × Reach) := .empty
  /-- How every owned cell was reached by its owner. -/
  owners : Std.ExtTreeMap Cell Reach := ∅
  /-- The shortest direct connection of two origins. -/
  contacts : Std.ExtTreeMap Origin.Pair Nat := ∅
  /-- The origins seen at each junction. -/
  sightings : Std.ExtTreeMap Cell (Std.ExtTreeSet Origin) := ∅
  /-- The origins met beyond each junction that its owner does not start from. -/
  encounters : Std.ExtTreeMap Cell (Std.ExtTreeSet Encounter) := ∅
  /-- How many waiting cells were handled. -/
  processed : Nat := 0

namespace Territory

/-! ## Records -/

/-- Let a cell wait for its turn. -/
def enqueue (s : Territory) (c : Cell) (r : Reach) : Territory :=
  { s with queue := s.queue.push (c, r) }

def connect (s : Territory) (x y : Origin) (length : Nat) : Territory :=
  let k := Origin.Pair.of x y
  let best := match s.contacts[k]? with
    | some l => min l length
    | none => length
  { s with contacts := s.contacts.insert k best }

/-- The origins seen at a cell. -/
def seenAt (s : Territory) (c : Cell) : Std.ExtTreeSet Origin := s.sightings[c]?.getD ∅

/-- The origins met beyond a cell. -/
def metBeyond (s : Territory) (c : Cell) : Std.ExtTreeSet Encounter := s.encounters[c]?.getD ∅

/-- An origin is seen at a cell, which matters if it is a junction. -/
def sight (s : Territory) (c : Cell) (o : Origin) : Territory :=
  if s.track.isJunction c then
    { s with sightings := s.sightings.insert c ((s.seenAt c).insert o) }
  else s

/-- Another origin is met at `arm`, which was reached over a trail: every junction on the trail,
except where the trail starts, notes the arm through which the other was met.  A junction that
noted the same before was passed by an earlier walk, which went on from there. -/
def traceBack (s : Territory) (other : Origin) (arm : Cell) : List Cell → Territory
  | [] => s
  | c :: trail =>
    if s.track.isJunction c ∧ trail ≠ [] then
      let met := s.metBeyond c
      if ⟨arm, other⟩ ∈ met then s
      else
        traceBack { s with encounters := s.encounters.insert c (met.insert ⟨arm, other⟩) }
          other c trail
    else traceBack s other c trail

/-- Two origins are connected over a number of steps through the cells `c` and `d`. -/
def touch (s : Territory) (length : Nat) (c : Cell) (r : Reach) (d : Cell) (q : Reach) :
    Territory :=
  ((((s.connect r.origin q.origin length).sight c q.origin).sight d r.origin).traceBack q.origin c
    r.trail).traceBack r.origin d q.trail

/-- The territories of two origins touch at the cells `c` and `d`: the steps on both sides and the one
between connect the origins. -/
def meet (s : Territory) (c : Cell) (r : Reach) (d : Cell) (q : Reach) : Territory :=
  s.touch (r.distance + 1 + q.distance) c r d q

/-- The cell `d` beside the newly owned cell `c`: where another origin owns it, the two meet;
where nobody owns it, it waits for its turn. -/
def approach (c : Cell) (r : Reach) (s : Territory) (d : Cell) : Territory :=
  match s.owners[d]? with
  | some q => if q.origin = r.origin then s else s.meet c r d q
  | none => s.enqueue d ⟨r.origin, c :: r.trail⟩

/-- Give a cell to the origin that reached it. -/
def settle (s : Territory) (c : Cell) (r : Reach) : Territory :=
  (s.track.neighbors c).foldl (approach c r)
    ({ s with owners := s.owners.insert c r }.sight c r.origin)

/-! ## Work -/

/-- Let every anchor wait for its turn.  An anchor that an earlier origin has already connects the
two at no distance. -/
def plant (s : Territory) (claimed : Std.ExtTreeMap Cell Origin) :
    List (Origin × Cell) → Territory
  | [] => s
  | (o, c) :: rest =>
    match claimed[c]? with
    | none => (s.enqueue c ⟨o, []⟩).plant (claimed.insert c o) rest
    | some p => (if p = o then s else s.connect p o 0).plant claimed rest

/-- The territories of some nodes, before the first unit of work. -/
def start (t : Track) (ns : List Site) : Territory :=
  let origins := Origin.ofNodes ns
  ({ track := t, origins } : Territory).plant ∅ (Origin.anchors origins)

def isDone (s : Territory) : Bool := s.queue.isEmpty

def advance (s : Territory) : Territory :=
  match s.queue.pop? with
  | none => s
  | some ((c, r), queue) =>
    let s := { s with queue, processed := s.processed + 1 }
    if c ∈ s.owners then s else s.settle c r

/-! ## Progress -/

/-- What no record of contacts, sightings and encounters changes. -/
structure SameGround (s t : Territory) : Prop where
  track : t.track = s.track
  owners : t.owners = s.owners
  queue : t.queue = s.queue

namespace SameGround

theorem refl (s : Territory) : SameGround s s := ⟨rfl, rfl, rfl⟩

theorem trans {s t u : Territory} (h : SameGround s t) (k : SameGround t u) : SameGround s u :=
  ⟨k.track.trans h.track, k.owners.trans h.owners, k.queue.trans h.queue⟩

theorem connect (s : Territory) (x y : Origin) (n : Nat) : SameGround s (s.connect x y n) :=
  ⟨rfl, rfl, rfl⟩

theorem sight (s : Territory) (c : Cell) (o : Origin) : SameGround s (s.sight c o) := by
  unfold Territory.sight
  split <;> exact ⟨rfl, rfl, rfl⟩

theorem traceBack (s : Territory) (o : Origin) (arm : Cell) (trail : List Cell) :
    SameGround s (s.traceBack o arm trail) := by
  induction trail generalizing s arm with
  | nil => exact refl s
  | cons c trail ih =>
    unfold Territory.traceBack
    simp only
    split
    · split
      · exact refl s
      · exact ⟨(ih _ c).track, (ih _ c).owners, (ih _ c).queue⟩
    · exact ih s c

theorem meet (s : Territory) (c : Cell) (r : Reach) (d : Cell) (q : Reach) :
    SameGround s (s.meet c r d q) := by
  unfold Territory.meet touch
  exact ((((connect s _ _ _).trans (sight _ _ _)).trans (sight _ _ _)).trans
    (traceBack _ _ _ _)).trans (traceBack _ _ _ _)

end SameGround

/-- How many laid cells nobody owns. -/
def unowned (s : Territory) : Nat := s.track.count fun c => decide (c ∉ s.owners)

/-- What a waiting cell may cost: a cell off the track may still have all its neighbours on it. -/
def weight (t : Track) (e : Cell × Reach) : Nat := if e.1 ∈ t then 1 else 13

/-- What all waiting cells may cost. -/
def waiting (s : Territory) : Nat := total (weight s.track) s.queue.toList

/-- A bound on the units left. -/
def work (s : Territory) : Nat := 13 * s.unowned + s.waiting

/-- Handling neighbours changes neither the track nor the owners, and lets each of them wait once at
most. -/
theorem foldl_approach (c : Cell) (r : Reach) (ds : List Cell) (s : Territory)
    (hd : ∀ d ∈ ds, d ∈ s.track) :
    let t := ds.foldl (approach c r) s
    t.track = s.track ∧ t.owners = s.owners ∧ t.waiting ≤ s.waiting + ds.length := by
  induction ds generalizing s with
  | nil => exact ⟨rfl, rfl, Nat.le_refl _⟩
  | cons d ds ih =>
    have step : (approach c r s d).track = s.track ∧ (approach c r s d).owners = s.owners ∧
        (approach c r s d).waiting ≤ s.waiting + 1 := by
      unfold approach
      split
      · split
        · exact ⟨rfl, rfl, Nat.le_succ _⟩
        · have h := SameGround.meet s c r d ‹_›
          refine ⟨h.track, h.owners, ?_⟩
          rw [waiting, h.queue, h.track]
          exact Nat.le_succ _
      · refine ⟨rfl, rfl, ?_⟩
        have : weight s.track (d, ⟨r.origin, c :: r.trail⟩) = 1 := if_pos (hd d (by simp))
        simp [waiting, enqueue, this]
    have rest := ih (approach c r s d) fun e he => by
      rw [step.1]; exact hd e (by simp [he])
    simp only [List.foldl_cons, List.length_cons] at rest ⊢
    exact ⟨rest.1.trans step.1, rest.2.1.trans step.2.1, by omega⟩

theorem settle_ground (s : Territory) (c : Cell) (r : Reach) :
    (s.settle c r).track = s.track ∧ (s.settle c r).owners = s.owners.insert c r ∧
      (s.settle c r).waiting ≤ s.waiting + 12 := by
  have h := SameGround.sight { s with owners := s.owners.insert c r } c r.origin
  have f := foldl_approach c r (s.track.neighbors c) _ fun d hd => by
    rw [h.track]; exact (Track.mem_neighbors.1 hd).2
  have n := s.track.length_neighbors_le c
  simp only at f
  refine ⟨f.1.trans h.track, f.2.1.trans h.owners, Nat.le_trans f.2.2 ?_⟩
  rw [waiting, h.queue, h.track]
  exact Nat.add_le_add_left n _

theorem unowned_settle_le (s : Territory) (c : Cell) (r : Reach) :
    (s.settle c r).unowned ≤ s.unowned := by
  obtain ⟨ht, ho, -⟩ := settle_ground s c r
  unfold unowned Track.count
  rw [ht, ho]
  refine List.countP_mono_left fun d _ hd => ?_
  simp only [decide_eq_true_eq, Std.ExtTreeMap.mem_insert, not_or] at hd ⊢
  exact hd.2

theorem unowned_settle_lt {s : Territory} {c : Cell} (r : Reach) (hc : c ∈ s.track)
    (ho : c ∉ s.owners) : (s.settle c r).unowned < s.unowned := by
  obtain ⟨ht, hs, -⟩ := settle_ground s c r
  unfold unowned
  rw [ht, hs]
  refine Track.count_lt hc (fun d hd => ?_) (by simpa using ho) (by simp)
  simp only [decide_eq_true_eq, Std.ExtTreeMap.mem_insert, not_or] at hd ⊢
  exact hd.2

theorem work_advance (s : Territory) (h : s.isDone = false) : s.advance.work < s.work := by
  obtain ⟨⟨c, r⟩, q, hq⟩ := Queue.pop?_isSome_of_isEmpty_eq_false h
  have hw : s.waiting = weight s.track (c, r) + total (weight s.track) q.toList := by
    simp [waiting, Queue.toList_of_pop? hq]
  have hone : 1 ≤ weight s.track (c, r) := by unfold weight; split <;> omega
  have key (t : Territory) (ht : t.track = s.track) (hu : t.unowned = s.unowned)
      (hq : t.waiting = total (weight s.track) q.toList) :
      (if c ∈ t.owners then t else t.settle c r).work < s.work := by
    split
    · simp only [work]
      omega
    · rename_i ho
      have hg := (settle_ground t c r).2.2
      by_cases hc : c ∈ s.track
      · have := unowned_settle_lt r (ht ▸ hc) ho
        simp only [work]
        omega
      · have := unowned_settle_le t c r
        have : weight s.track (c, r) = 13 := if_neg hc
        simp only [work]
        omega
  unfold advance
  rw [hq]
  exact key _ rfl rfl rfl

instance : Stepwise Territory := ⟨isDone, advance, work, work_advance⟩

/-! ## Views -/

def visited (s : Territory) : Nat := s.owners.size

/-- How many cells wait for their turn. -/
def queueLength (s : Territory) : Nat := s.queue.length

def owner? (s : Territory) (c : Cell) : Option Origin := s.owners[c]?.map Reach.origin

end Territory

end Signalbox
