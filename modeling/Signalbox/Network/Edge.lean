import Signalbox.Network.Node
import Signalbox.Numeral.Binary32
import Signalbox.Time

/-!
# Edges

An edge joins two nodes.  It is named by its two ends without regard to direction, so the two ends
are kept in ascending order.  An edge that is not bidirectional may only be used from its source to
its target.

* `Ends.of_comm`      : the name of an edge does not depend on the direction;
* `Edge.target?_eq_some` : when an edge can be left from a node, and where it leads.
-/

set_option autoImplicit false

namespace Signalbox

/-! ## The two ends of an edge -/

/-- The names of the nodes at the two ends of an edge. -/
structure Ends where
  a : NodeId
  b : NodeId
deriving DecidableEq, Inhabited

namespace Ends

instance : Ord Ends := ⟨compareLex (compareOn Ends.a) (compareOn Ends.b)⟩

instance : Std.TransOrd Ends :=
  inferInstanceAs (Std.TransCmp (compareLex (compareOn Ends.a) (compareOn Ends.b)))

theorem compare_def (k l : Ends) : compare k l = (compare k.a l.a).then (compare k.b l.b) := rfl

instance : Std.LawfulEqOrd Ends where
  eq_of_compare {k l} h := by
    rw [compare_def, Ordering.then_eq_eq] at h
    cases k; cases l
    simp_all

/-- The ends in ascending order. -/
def of (x y : NodeId) : Ends := if x ≤ y then ⟨x, y⟩ else ⟨y, x⟩

theorem of_comm (x y : NodeId) : of x y = of y x := by
  unfold of
  by_cases h : x ≤ y <;> by_cases h' : y ≤ x
  · rw [if_pos h, if_pos h', Ident.le_antisymm h h']
  · rw [if_pos h, if_neg h']
  · rw [if_neg h, if_pos h']
  · exact absurd (Ident.le_total x y) (by simp [h, h'])

theorem of_ordered (x y : NodeId) : (of x y).a ≤ (of x y).b := by
  unfold of
  by_cases h : x ≤ y
  · simp [h]
  · have := Ident.le_total x y
    simp only [h, false_or] at this
    simpa [h] using this

def contains (k : Ends) (n : NodeId) : Bool := k.a = n || k.b = n

/-- The end opposite to a node. -/
def other? (k : Ends) (n : NodeId) : Option NodeId :=
  if k.a = n then some k.b else if k.b = n then some k.a else none

theorem other?_of (x y n : NodeId) :
    (of x y).other? n = if x = n then some y else if y = n then some x else none := by
  unfold of other?
  by_cases h : x ≤ y
  · rw [if_pos h]
  · rw [if_neg h]
    by_cases hx : x = n <;> by_cases hy : y = n <;> simp [hx, hy]

/-- The two names with an arrow between them. -/
def text (k : Ends) : String := k.a.text ++ "<->" ++ k.b.text

end Ends

/-! ## Edges -/

/-- The details of the nodes at both ends of an edge. -/
structure EdgeDetails where
  source : Option Details := none
  target : Option Details := none
deriving DecidableEq, Inhabited

/-- A direct connection of two nodes.  Its length counts cell steps, its speed limit is in cells
per second. -/
structure Edge where
  source : NodeId
  target : NodeId
  length : Nat
  speedLimit : Binary32
  bidirectional : Bool := true
  details : Option EdgeDetails := none
deriving DecidableEq, Inhabited

namespace Edge

def ends (e : Edge) : Ends := Ends.of e.source e.target

def touches (e : Edge) (n : NodeId) : Bool := e.source = n || e.target = n

/-- Whether the edge may be used starting at a node. -/
def canLeave (e : Edge) (n : NodeId) : Bool :=
  e.source = n || (e.bidirectional && e.target = n)

/-- The node reached by using the edge from a node. -/
def target? (e : Edge) (n : NodeId) : Option NodeId :=
  if e.source = n then some e.target
  else if e.bidirectional ∧ e.target = n then some e.source
  else none

theorem target?_eq_some {e : Edge} {n m : NodeId} :
    e.target? n = some m ↔
      (e.source = n ∧ e.target = m) ∨
        (e.source ≠ n ∧ e.bidirectional = true ∧ e.target = n ∧ e.source = m) := by
  unfold target?
  by_cases h : e.source = n
  · simp [h]
  · by_cases h' : e.bidirectional = true ∧ e.target = n
    · simp [h, h']
    · rw [if_neg h, if_neg h']
      simp only [reduceCtorEq, false_iff, not_or, not_and]
      exact ⟨fun hn => absurd hn h, fun _ hb ht => absurd ⟨hb, ht⟩ h'⟩

theorem target?_eq_other? (e : Edge) (n : NodeId) :
    e.target? n = if e.canLeave n then e.ends.other? n else none := by
  rw [target?, canLeave, ends, Ends.other?_of]
  by_cases hs : e.source = n
  · simp [hs]
  · by_cases ht : e.target = n <;> simp [hs, ht]

/-- The speed that travel times are reckoned with: the limit, or one cell per second if the limit
is not a positive number. -/
def reckonedSpeed (e : Edge) : Magnitude :=
  if e.speedLimit.isPositive then e.speedLimit.magnitude else .finite 1 0

/-- The milliseconds it takes to run the edge at its speed limit: a double-precision quotient,
rounded up, and at most the largest word. -/
def travelTime (e : Edge) : Nat :=
  let distance := BinaryFormat.double.nearest (e.length * 1000) 1
  match (distance.div .double e.reckonedSpeed).ceil? with
  | some ms => min ms maxWord
  | none => maxWord

end Edge

end Signalbox
