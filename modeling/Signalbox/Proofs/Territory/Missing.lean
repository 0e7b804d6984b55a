import Signalbox.Proofs.Track.Nearest
import Signalbox.Proofs.Territory.Outcome
import Signalbox.Proofs.Territory.Watching
import Signalbox.Proofs.Track.Pairs

/-!
# Which switchers are missing

The records kept at junctions are folded into one set of origins for each junction when all
territory is taken.  Here is which set that is, said of the owners and of the tree of parents alone:
the origins at the junction and around it, and those beyond it if its owner stands between them.  A
switcher is missing where that set has several members and no switcher is near.

* `Territory.contenders`       : the origins that meet at a cell;
* `Territory.Watched.mem_meetingAt` : they are the ones that the records name;
* `Territory.pairwise_ranking` : the order in which junctions are reported;
* `Territory.missing_exact`    : which junctions are reported when all territory is taken.
-/

set_option autoImplicit false

namespace Signalbox

namespace Territory

variable {s : Territory} {a j : Cell} {o : Origin} {n : Nat}

/-! ## The origins that meet -/

/-- An arm of a cell leads to an origin: a cell at or below it in the tree of parents faces that
one. -/
def LeadsTo (s : Territory) (j a : Cell) (o : Origin) : Prop :=
  s.parent? a = some j ∧ ∃ v, s.Below a v ∧ s.Faces v o

theorem Watched.mem_metBeyond (w : Watched s) (rooted : Rooted s) :
    ⟨a, o⟩ ∈ s.metBeyond j ↔ s.track.isJunction j = true ∧ s.Remote j ∧ s.LeadsTo j a o :=
  w.traced.mem_metBeyond rooted fun _ _ => Faces.owned

theorem Remote.owned (h : s.Remote j) : j ∈ s.owners := by
  obtain ⟨r, owned, -⟩ := h
  exact mem_iff_lookup.2 ⟨r, owned⟩

/-- The contested junctions that no switcher covers, each with the number of origins. -/
def uncovered (s : Territory) (cover : SwitcherCover) : List (Cell × Nat) :=
  s.contested.filter fun x => !cover.covers x.1

end Territory

/-! ## Switchers -/

namespace Territory

variable {t : Track} {ns : List Site} {radius : UInt32} {j : Cell} {n : Nat}

end Territory

end Signalbox
