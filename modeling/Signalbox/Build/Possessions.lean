import Signalbox.Build.Job

/-!
# Possessions

A region that is being built is in the possession of one job.  Whoever wants to build it claims it
first, and it stays claimed until it is given free.

* `Possessions.isActive_hear` : of all notices, only a release changes what is claimed.
-/

set_option autoImplicit false

namespace Signalbox

/-- The regions that are claimed. -/
structure Possessions where
  active : Std.ExtTreeSet RegionId := ∅

namespace Possessions

def empty : Possessions := {}

instance : Inhabited Possessions := ⟨empty⟩

def isActive (p : Possessions) (r : RegionId) : Bool := decide (r ∈ p.active)

def toList (p : Possessions) : List RegionId := p.active.toList

/-- Claim a region, unless it is claimed. -/
def claim (p : Possessions) (r : RegionId) : Except BuildFault Possessions :=
  if p.isActive r then .error (.alreadyRunning r) else .ok ⟨p.active.insert r⟩

def free (p : Possessions) (r : RegionId) : Possessions := ⟨p.active.erase r⟩

/-- Give the region of a job free that is no longer wanted; a job that is done holds none. -/
def abandon (p : Possessions) (j : Job) : Possessions := if j.isDone then p else p.free j.region

/-- What a notice means for what is claimed. -/
def hear (p : Possessions) : Notice → Possessions
  | .released r => p.free r
  | _ => p

/-- What several notices mean for what is claimed. -/
def hearAll (p : Possessions) (ns : List Notice) : Possessions := ns.foldl hear p

theorem isActive_free (p : Possessions) (r s : RegionId) :
    (p.free r).isActive s = (decide (r ≠ s) && p.isActive s) := by
  by_cases h : r = s <;> simp [free, isActive, h]

theorem isActive_hear {p : Possessions} {n : Notice} (s : RegionId) :
    (p.hear n).isActive s = true ↔
      p.isActive s = true ∧ ∀ r, n = .released r → r ≠ s := by
  cases n with
  | released r => simp [hear, isActive_free, and_comm]
  | phase r p => simp [hear]
  | success b => simp [hear]
  | failure r e => simp [hear]

end Possessions

end Signalbox
