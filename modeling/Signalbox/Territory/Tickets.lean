import Signalbox.Heap
import Signalbox.Territory.Basic

/-!
# Territory by tickets

Waiting cells may also be kept in a heap.  Every cell that is let wait is given a ticket with the
steps that lead to it, a word of 32 bits, and the number of tickets given before; the next turn goes
to the ticket of fewest steps, and of several to the one given first.  All lengths are sums of such
words, which wrap around.

* `Ticketed.advance` : one unit of work.
-/

set_option autoImplicit false

namespace Signalbox

/-- The number of steps from an anchor of the origin, counted in a word. -/
def Reach.word (r : Reach) : UInt32 := UInt32.ofNat r.distance

/-- A cell that waits for its turn. -/
structure Ticket where
  /-- How many tickets were given before. -/
  number : Nat
  cell : Cell
  reach : Reach
deriving DecidableEq, Inhabited

namespace Ticket

/-- The steps that lead to the cell. -/
def steps (k : Ticket) : UInt32 := k.reach.word

instance : Ord Ticket := ⟨compareLex (compareOn Ticket.steps) (compareOn Ticket.number)⟩

instance : Std.TransOrd Ticket :=
  inferInstanceAs (Std.TransCmp (compareLex (compareOn Ticket.steps) (compareOn Ticket.number)))

theorem compare_def (k l : Ticket) :
    compare k l = (compare k.steps l.steps).then (compare k.number l.number) := rfl

end Ticket

/-- The territory taken so far, and the tickets of the cells whose turn is still to come. -/
structure Ticketed where
  /-- What is known by now; its own queue is not used. -/
  ground : Territory
  heap : Heap Ticket := .empty
  /-- How many tickets were given. -/
  given : Nat := 0

namespace Ticketed

/-- Give a ticket to a cell. -/
def issue (e : Ticketed) (c : Cell) (r : Reach) : Ticketed :=
  { e with heap := e.heap.push ⟨e.given, c, r⟩, given := e.given + 1 }

/-- Give tickets to the anchors.  An anchor that an earlier origin has already connects the two at no
distance. -/
def plant (e : Ticketed) (claimed : Std.ExtTreeMap Cell Origin) : List (Origin × Cell) → Ticketed
  | [] => e
  | (o, c) :: rest =>
    match claimed[c]? with
    | none => (e.issue c ⟨o, []⟩).plant (claimed.insert c o) rest
    | some p =>
      (if p = o then e else { e with ground := e.ground.connect p o 0 }).plant claimed rest

/-- The territories of some nodes, before the first unit of work. -/
def start (t : Track) (ns : List Site) : Ticketed :=
  let origins := Origin.ofNodes ns
  ({ ground := { track := t, origins } } : Ticketed).plant ∅ (Origin.anchors origins)

/-- The cell `d` beside the newly owned cell `c`. -/
def approach (c : Cell) (r : Reach) (e : Ticketed) (d : Cell) : Ticketed :=
  match e.ground.owners[d]? with
  | some q =>
    if q.origin = r.origin then e
    else { e with ground := e.ground.touch (r.word + 1 + q.word).toNat c r d q }
  | none => e.issue d ⟨r.origin, c :: r.trail⟩

/-- Give a cell to the origin that reached it. -/
def settle (e : Ticketed) (c : Cell) (r : Reach) : Ticketed :=
  (e.ground.track.neighbors c).foldl (approach c r)
    { e with ground := { e.ground with owners := e.ground.owners.insert c r }.sight c r.origin }

def isDone (e : Ticketed) : Bool := e.heap.entries.isEmpty

/-- One ticket has been drawn, and the heap is left. -/
def behind (e : Ticketed) (heap : Heap Ticket) : Ticketed :=
  { e with heap, ground := { e.ground with processed := e.ground.processed + 1 } }

def advance (e : Ticketed) : Ticketed :=
  match e.heap.pop? with
  | none => e
  | some (k, heap) =>
    if k.cell ∈ e.ground.owners then e.behind heap else (e.behind heap).settle k.cell k.reach

end Ticketed

end Signalbox
