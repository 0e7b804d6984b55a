import Signalbox.Build.Possessions
import Signalbox.Proofs.Build.Notices

/-!
# What is claimed

A claim is refused exactly if its region is claimed already, and otherwise adds this region only.
What is given free, and every release that is heard of, takes away its own region only.

* `Possessions.claim_eq_error_iff`, `Possessions.claim_eq_ok` : what becomes of a claim;
* `Possessions.isActive_hearAll` : what is still claimed after some notices.
-/

set_option autoImplicit false

namespace Signalbox

namespace Possessions

variable {p q : Possessions} {r : RegionId}

theorem claim_eq_error_iff {e : BuildFault} :
    p.claim r = .error e ↔ p.isActive r = true ∧ e = .alreadyRunning r := by
  unfold claim
  split
  · rename_i active
    simp [active, eq_comm]
  · rename_i free
    simp [free]

theorem claim_eq_ok (h : p.claim r = .ok q) :
    p.isActive r = false ∧ ∀ s, q.isActive s = true ↔ r = s ∨ p.isActive s = true := by
  unfold claim at h
  split at h
  · cases h
  · rename_i free
    cases h
    refine ⟨by simpa using free, fun s => ?_⟩
    simp [isActive, Std.ExtTreeSet.mem_insert]

theorem isActive_free_iff {s : RegionId} :
    (p.free r).isActive s = true ↔ p.isActive s = true ∧ r ≠ s := by
  rw [isActive_free, Bool.and_eq_true, decide_eq_true_eq, and_comm]

/-- An unfinished job that is no longer wanted gives its region free. -/
theorem isActive_abandon {j : Job} {s : RegionId} :
    (p.abandon j).isActive s = true ↔
      p.isActive s = true ∧ ¬ (j.region = s ∧ j.isDone = false) := by
  unfold abandon
  cases hd : j.isDone with
  | true => simp
  | false => simp [isActive_free_iff]

/-- Of several notices, only the releases change what is claimed. -/
theorem isActive_hearAll {ns : List Notice} {s : RegionId} :
    (p.hearAll ns).isActive s = true ↔ p.isActive s = true ∧ .released s ∉ ns := by
  unfold hearAll
  induction ns generalizing p with
  | nil => simp
  | cons n ns ih =>
    rw [List.foldl_cons, ih, isActive_hear, List.mem_cons, not_or, and_assoc]
    refine and_congr_right fun _ => and_congr_left fun _ => ?_
    constructor
    · rintro other rfl
      exact other s rfl rfl
    · rintro other r rfl rfl
      exact other rfl

end Possessions

end Signalbox
