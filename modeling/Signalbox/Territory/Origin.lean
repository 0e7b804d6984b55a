import Signalbox.Survey.Report

/-!
# Origins

Every site of a node is an origin from which territory is taken.  Origins are ordered by the id of
their node.  Should several nodes share an id, they are told apart by their position among
themselves.

* `Origin.Pair.of_comm` : a pair of origins has no first and second member.
-/

set_option autoImplicit false

namespace Signalbox

/-- A node that takes territory; `copy` counts the nodes of the same id before it. -/
structure Origin where
  id : NodeId
  copy : Nat
deriving DecidableEq, Inhabited

namespace Origin

instance : Ord Origin := ⟨compareLex (compareOn Origin.id) (compareOn Origin.copy)⟩

instance : Std.TransOrd Origin :=
  inferInstanceAs (Std.TransCmp (compareLex (compareOn Origin.id) (compareOn Origin.copy)))

theorem compare_def (a b : Origin) :
    compare a b = (compare a.id b.id).then (compare a.copy b.copy) := rfl

instance : Std.LawfulEqOrd Origin where
  eq_of_compare {a b} h := by
    rw [compare_def, Ordering.then_eq_eq] at h
    cases a; cases b
    simp_all

/-! ## Labels -/

/-- The nodes with their labels, given the ids of the nodes before them. -/
def labelAfter (earlier : List NodeId) : List Site → List (Origin × List Cell)
  | [] => []
  | n :: ns => (⟨n.id, earlier.count n.id⟩, n.anchors) :: labelAfter (n.id :: earlier) ns

/-- The anchors of every origin, in the order of the origins.  Nodes without anchors take no
territory. -/
def ofNodes (ns : List Site) : Std.ExtTreeMap Origin (List Cell) :=
  .ofList (labelAfter [] (ns.filter fun n => !n.anchors.isEmpty))

/-- The anchors of all origins, in the order of the origins. -/
def anchors (os : Std.ExtTreeMap Origin (List Cell)) : List (Origin × Cell) :=
  os.toList.flatMap fun (o, cs) => cs.map fun c => (o, c)

/-! ## Pairs -/

/-- Two origins in ascending order. -/
structure Pair where
  a : Origin
  b : Origin
deriving DecidableEq, Inhabited

namespace Pair

instance : Ord Pair := ⟨compareLex (compareOn Pair.a) (compareOn Pair.b)⟩

instance : Std.TransOrd Pair :=
  inferInstanceAs (Std.TransCmp (compareLex (compareOn Pair.a) (compareOn Pair.b)))

theorem compare_def (k l : Pair) : compare k l = (compare k.a l.a).then (compare k.b l.b) := rfl

instance : Std.LawfulEqOrd Pair where
  eq_of_compare {k l} h := by
    rw [compare_def, Ordering.then_eq_eq] at h
    cases k; cases l
    simp_all

/-- The pair of two origins, whichever is named first. -/
def of (x y : Origin) : Pair := if compare x y = .gt then ⟨y, x⟩ else ⟨x, y⟩

theorem of_comm (x y : Origin) : of x y = of y x := by
  unfold of
  rw [Std.OrientedOrd.eq_swap (a := y) (b := x)]
  cases h : compare x y with
  | eq => simp [Std.LawfulEqOrd.eq_of_compare h]
  | lt => simp
  | gt => simp

end Pair

end Origin

end Signalbox
