import Signalbox.Territory.Basic

/-!
# Links and missing switchers

When all territory is taken, every contact is a link of two nodes.  A junction at which several
origins meet and which no switcher covers is reported as a missing switcher.  Origins meet at a
junction if they were seen there, or if its owner meets others through two of its arms or more: then
the owner stands between them, which is what a switcher would mend.

* `Territory.links`             : the direct connections, by the ids of their ends;
* `Territory.missingSwitchers`  : the junctions without a switcher, most origins first.
-/

set_option autoImplicit false

namespace Signalbox

/-- A direct connection of two nodes and the number of steps between their anchors. -/
structure Link where
  a : NodeId
  b : NodeId
  length : Nat
deriving DecidableEq

/-! ## Switchers -/

/-- What is covered by switchers: their anchors, and whatever is within reach of their positions. -/
structure SwitcherCover where
  cells : Std.ExtTreeSet Cell
  positions : List Cell
  /-- The square of how far a switcher covers. -/
  reach : Int64

namespace SwitcherCover

/-- What the switchers among some nodes cover. -/
def ofNodes (ns : List Site) (radius : UInt32) : SwitcherCover :=
  let switchers := ns.filter fun n => n.node.isSwitcher
  { cells := .ofList (switchers.flatMap Site.anchors)
    positions := switchers.map fun n => n.node.pos
    reach := Int64.ofNat radius.toNat * Int64.ofNat radius.toNat }

def covers (s : SwitcherCover) (c : Cell) : Bool :=
  decide (c ∈ s.cells) || s.positions.any fun p => decide (p.distanceSq c ≤ s.reach)

end SwitcherCover

/-! ## Results -/

namespace Territory

/-- The links, in the order of their ends. -/
def links (s : Territory) : List Link :=
  s.contacts.toList.map fun (k, n) => ⟨k.a.id, k.b.id, n⟩

/-- The arms of a junction through which other origins were met further out. -/
def armsBeyond (s : Territory) (c : Cell) : Std.ExtTreeSet Cell :=
  .ofList ((s.metBeyond c).toList.map Encounter.arm)

/-- The origins that meet at a cell. -/
def meetingAt (s : Territory) (c : Cell) : Std.ExtTreeSet Origin :=
  if 2 ≤ (s.armsBeyond c).size then
    let others := (s.metBeyond c).toList.map Encounter.other
    (s.seenAt c).insertMany (others ++ (s.owner? c).toList)
  else s.seenAt c

/-- The junctions where several origins meet, each with their number, in the order of the cells. -/
def contested (s : Territory) : List (Cell × Nat) :=
  (s.sightings.keys.map fun c => (c, (s.meetingAt c).size)).filter fun p => decide (2 ≤ p.2)

/-- At most `cap` contested junctions without a switcher: those where most origins meet come first,
and of these the first cells. -/
def missingSwitchers (s : Territory) (cover : SwitcherCover) (cap : Nat) : List Cell :=
  let uncovered := s.contested.filter fun p => !cover.covers p.1
  ((uncovered.mergeSort fun p q => decide (q.2 ≤ p.2)).take cap).map Prod.fst

end Territory

end Signalbox
