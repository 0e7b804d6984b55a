import Signalbox.Proofs.Interlocking.Headway

/-!
# Releasing

A release stamps live claims with the instant at which they were given up, and touches nothing else.
Live and released claims share the one entry that a ledger has for a resource; what is released
already is never stamped again, so no release moves the end of a headway that is running.

* `Ledger.releaseAll_eq_of_none`  : a holder without live claims releases nothing;
* `Ledger.snd_release_iff_ne`     : a release says whether it changed anything;
* `Ledger.holds_run_of_released`  : what is released stays as it is, whatever is released later;
* `Ledger.releases_exact`         : what releases change, count and leave alone.
-/

set_option autoImplicit false

namespace Signalbox

namespace Ledger

variable {l : Ledger} {who : HolderId} {r s : Resource} {h : Hold} {now later : Timestamp}
  {expected : Option HolderId}

theorem ext {m : Ledger} (settings : m.settings = l.settings)
    (holds : ∀ r : Resource, m.holds[r]? = l.holds[r]?) : m = l := by
  obtain ⟨ls, lh⟩ := l
  obtain ⟨ms, mh⟩ := m
  cases settings
  exact congrArg _ (Std.ExtTreeMap.ext_getElem? fun {r} => holds r)

theorem isHeldBy_iff : isHeldBy who h = true ↔ h.isLive = true ∧ h.holder = who := by
  simp [isHeldBy]

theorem isReleasable_iff : isReleasable expected h = true ↔
    h.isLive = true ∧ ∀ who, expected = some who → h.holder = who := by
  cases expected with
  | none => simp [isReleasable]
  | some who => simp [isReleasable, eq_comm (a := h.holder)]

/-! ## All claims of a holder -/

theorem snd_releaseAll (l : Ledger) (who : HolderId) (now : Timestamp) :
    (l.releaseAll who now).2 = l.claims.countP fun c => c.hold.isLive && c.hold.holder = who := by
  rw [claims, List.countP_map]
  rfl

theorem releaseAll_eq_of_none
    (none : ∀ (r : Resource) (h : Hold), l.holds[r]? = some h → isHeldBy who h = false) :
    l.releaseAll who now = (l, 0) := by
  refine Prod.ext (ext rfl fun r => ?_) (List.countP_eq_zero.2 fun e he => ?_)
  · rw [holds_releaseAll]
    cases hr : l.holds[r]? with
    | none => rfl
    | some h => rw [Option.map_some, none r h hr, if_neg Bool.false_ne_true]
  · have kept := none e.1 e.2 (Std.ExtTreeMap.mem_toList_iff_getElem?_eq_some.1 he)
    exact Bool.eq_false_iff.1 kept

theorem releaseAll_releaseAll (l : Ledger) (who : HolderId) (now later : Timestamp) :
    (l.releaseAll who now).1.releaseAll who later = ((l.releaseAll who now).1, 0) := by
  refine releaseAll_eq_of_none fun r h hr => ?_
  rw [holds_releaseAll, Option.map_eq_some_iff] at hr
  obtain ⟨k, -, rfl⟩ := hr
  split
  · rfl
  · rename_i kept
    exact Bool.eq_false_iff.2 kept

/-! ## One resource -/

theorem snd_release_iff_ne (l : Ledger) (r : Resource) (expected : Option HolderId)
    (now : Timestamp) : (l.release r expected now).2 = true ↔ (l.release r expected now).1 ≠ l := by
  constructor
  · intro released same
    rw [snd_release, Option.any_eq_true] at released
    obtain ⟨h, hr, releasable⟩ := released
    have stamped : l.holds[r]? = some (h.release now) := by
      rw [← same, holds_release, hr, Option.map_some, if_pos ⟨rfl, releasable⟩]
    have live : (h.release now).isLive = true := by
      rw [hr, Option.some.injEq] at stamped
      exact stamped ▸ (isReleasable_iff.1 releasable).1
    rw [Hold.isLive_release] at live
    cases live
  · intro changed
    by_contra kept
    apply changed
    rw [snd_release, Option.any_eq_true] at kept
    rw [release_of_not_isReleasable]
    intro h hr
    exact Bool.eq_false_iff.2 fun releasable => kept ⟨h, hr, releasable⟩

/-! ## Releases one after the other -/

/-- Whether an operation gives something up and does nothing else. -/
def Operation.isRelease : Operation → Bool
  | releaseAll .. => true
  | release .. => true
  | _ => false

/-- One release leaves what is released already as it is. -/
theorem holds_perform_of_released {op : Operation} (only : op.isRelease = true)
    (hr : l.holds[r]? = some h) (released : h.isLive = false) :
    (op.perform l).holds[r]? = some h := by
  cases op with
  | acquire q => cases only
  | arbitrate qs => cases only
  | purge now => cases only
  | releaseAll who now =>
    show (l.releaseAll who now).1.holds[r]? = some h
    rw [holds_releaseAll, hr, Option.map_some, if_neg]
    simp [isHeldBy, released]
  | release s expected now =>
    show (l.release s expected now).1.holds[r]? = some h
    rw [holds_release, hr, Option.map_some, if_neg]
    simp [isReleasable, released]

/-- **What is released stays as it is**, whatever is released later. -/
theorem holds_run_of_released {ops : List Operation} (only : ∀ op ∈ ops, op.isRelease = true)
    (hr : l.holds[r]? = some h) (released : h.isLive = false) :
    (l.run ops).holds[r]? = some h := by
  induction ops generalizing l with
  | nil => exact hr
  | cons op ops ih =>
    rw [List.forall_mem_cons] at only
    exact ih only.2 (holds_perform_of_released only.1 hr released)

/-- A release stamps a hold that was live, or leaves it. -/
theorem released_of_perform_ne {op : Operation} (only : op.isRelease = true)
    (changed : (op.perform l).holds[r]? ≠ l.holds[r]?) :
    ∃ h t, (op.perform l).holds[r]? = some (Hold.release h t) := by
  have stamped {f : Hold → Bool} {t : Timestamp}
      (hm : (op.perform l).holds[r]? = (l.holds[r]?).map fun h => if f h then h.release t else h) :
      ∃ h t, (op.perform l).holds[r]? = some (Hold.release h t) := by
    cases hr : l.holds[r]? with
    | none =>
      rw [hr] at hm changed
      exact absurd hm changed
    | some h =>
      rw [hr, Option.map_some] at hm
      cases hf : f h with
      | true => exact ⟨h, t, by rw [hm, hf, if_pos rfl]⟩
      | false =>
        rw [hf, if_neg Bool.false_ne_true] at hm
        exact absurd (hm.trans hr.symm) changed
  cases op with
  | acquire q => cases only
  | arbitrate qs => cases only
  | purge now => cases only
  | releaseAll who now => exact stamped (holds_releaseAll l who now r)
  | release s expected now =>
    refine stamped (f := fun h => Decidable.decide (r = s) && isReleasable expected h) (t := now) ?_
    simp only [Bool.and_eq_true, decide_eq_true_eq]
    exact holds_release l s expected now r

/-- **Releases are exact.**  When a holder gives up everything, exactly its live claims are stamped
with the instant, as many as it is told; everything else stays, and there is nothing left to give
up.  When a resource is given up, it is stamped if it is live and of the expected holder, if one is
expected, which is told; nothing else changes, and nothing at all otherwise.  What a release has
changed, no later release changes again; and what was released before stays as it was. -/
theorem releases_exact (l : Ledger) :
    (∀ who now,
      (∀ (r : Resource) (h : Hold), l.holds[r]? = some h → h.isLive = true → h.holder = who →
        (l.releaseAll who now).1.holds[r]? = some { h with releasedAt := some now }) ∧
      (∀ r : Resource, (∀ h, l.holds[r]? = some h → h.isLive = true → h.holder ≠ who) →
        (l.releaseAll who now).1.holds[r]? = l.holds[r]?) ∧
      (l.releaseAll who now).1.settings = l.settings ∧
      (l.releaseAll who now).2 =
        l.claims.countP (fun c => c.hold.isLive && c.hold.holder = who) ∧
      ∀ later, (l.releaseAll who now).1.releaseAll who later = ((l.releaseAll who now).1, 0)) ∧
    (∀ r expected now,
      ((l.release r expected now).2 = true ↔ ∃ h, l.holds[r]? = some h ∧ h.isLive = true ∧
        ∀ who, expected = some who → h.holder = who) ∧
      ((l.release r expected now).2 = true → ∀ h, l.holds[r]? = some h →
        (l.release r expected now).1.holds[r]? = some { h with releasedAt := some now }) ∧
      (∀ s, s ≠ r → (l.release r expected now).1.holds[s]? = l.holds[s]?) ∧
      (l.release r expected now).1.settings = l.settings ∧
      ((l.release r expected now).2 = true ↔ (l.release r expected now).1 ≠ l)) ∧
    ∀ ops : List Operation, (∀ op ∈ ops, op.isRelease = true) →
      (∀ op : Operation, op.isRelease = true →
        ∀ r : Resource, (op.perform l).holds[r]? ≠ l.holds[r]? →
          ((op.perform l).run ops).holds[r]? = (op.perform l).holds[r]? ∧
          ∀ expected now, (((op.perform l).run ops).release r expected now).2 = false) ∧
      ∀ (r : Resource) (h : Hold), l.holds[r]? = some h → h.isLive = false →
        (l.run ops).holds[r]? = some h := by
  refine ⟨fun who now => ⟨?stamped, ?kept, rfl, snd_releaseAll l who now,
    releaseAll_releaseAll l who now⟩, fun r expected now => ⟨?told, ?one, ?others,
    settings_release l r expected now, snd_release_iff_ne l r expected now⟩,
    fun ops only => ⟨?once, fun r h hr released => holds_run_of_released only hr released⟩⟩
  case stamped =>
    intro r h hr live whose
    rw [holds_releaseAll, hr, Option.map_some, if_pos (isHeldBy_iff.2 ⟨live, whose⟩)]
    rfl
  case kept =>
    intro r other
    rw [holds_releaseAll]
    cases hr : l.holds[r]? with
    | none => rfl
    | some h =>
      have kept : ¬ isHeldBy who h = true := by
        intro held
        obtain ⟨live, whose⟩ := isHeldBy_iff.1 held
        exact other h hr live whose
      rw [Option.map_some, if_neg kept]
  case told =>
    simp only [snd_release, Option.any_eq_true, isReleasable_iff]
  case one =>
    intro done h hr
    rw [snd_release, hr, Option.any_some] at done
    rw [holds_release, hr, Option.map_some, if_pos ⟨rfl, done⟩]
    rfl
  case others =>
    intro s apart
    rw [holds_release]
    simp [apart]
  case once =>
    intro op onlyOne r changed
    obtain ⟨h, t, stamped⟩ := released_of_perform_ne onlyOne changed
    have stays := holds_run_of_released only stamped (Hold.isLive_release h t)
    refine ⟨stays.trans stamped.symm, fun expected now => ?_⟩
    rw [snd_release, stays]
    simp [isReleasable]

/-- A train gives up everything after it gave up one track already: only the other track is stamped.
Whatever is released later, by whomever, moves neither of the two headways. -/
theorem releases_exact_twice_released :
    let r (key : String) : Resource := ⟨.custom, key⟩
    let ask (who : String) (keys : List String) : Request := ⟨⟨who⟩, false, ⟨0⟩, keys.map r⟩
    let l : Ledger := (empty {}).run [.acquire (ask "A" ["E1", "E2"]), .acquire (ask "B" ["E3"]),
      .release (r "E2") none ⟨500⟩]
    let leave : Operation := .releaseAll ⟨"A"⟩ ⟨1000⟩
    let ops : List Operation := [.releaseAll ⟨"A"⟩ ⟨3000⟩, .release (r "E1") (some ⟨"A"⟩) ⟨4000⟩,
      .release (r "E3") none ⟨2000⟩, .release (r "E2") none ⟨0⟩]
    (l.releaseAll ⟨"A"⟩ ⟨1000⟩).2 = 1 ∧
      (leave.perform l).holds[r "E1"]? = some ⟨⟨"A"⟩, ⟨0⟩, 5000, some ⟨1000⟩⟩ ∧
      (leave.perform l).holds[r "E1"]? ≠ l.holds[r "E1"]? ∧
      (∀ op ∈ ops, op.isRelease = true) ∧
      ((leave.perform l).run ops).holds[r "E1"]? = some ⟨⟨"A"⟩, ⟨0⟩, 5000, some ⟨1000⟩⟩ ∧
      l.holds[r "E2"]? = some ⟨⟨"A"⟩, ⟨0⟩, 5000, some ⟨500⟩⟩ ∧
      (l.run ops).holds[r "E2"]? = some ⟨⟨"A"⟩, ⟨0⟩, 5000, some ⟨500⟩⟩ ∧
      (l.release (r "E3") (some ⟨"A"⟩) ⟨1000⟩).2 = false := by
  intro r ask l leave ops
  have live : l.holds[r "E1"]? = some ⟨⟨"A"⟩, ⟨0⟩, 5000, none⟩ := by decide +kernel
  have given : l.holds[r "E2"]? = some ⟨⟨"A"⟩, ⟨0⟩, 5000, some ⟨500⟩⟩ := by decide +kernel
  have only : ∀ op ∈ ops, op.isRelease = true := by decide
  obtain ⟨all, one, later⟩ := releases_exact l
  obtain ⟨once, stays⟩ := later ops only
  obtain ⟨stamped, -, -, count, -⟩ := all ⟨"A"⟩ ⟨1000⟩
  have left : (leave.perform l).holds[r "E1"]? = some ⟨⟨"A"⟩, ⟨0⟩, 5000, some ⟨1000⟩⟩ :=
    stamped _ _ live rfl rfl
  have changed : (leave.perform l).holds[r "E1"]? ≠ l.holds[r "E1"]? := by
    rw [left, live]
    decide
  refine ⟨?_, left, changed, only, (once leave rfl _ changed).1.trans left, given,
    stays _ _ given rfl, ?_⟩
  · rw [count]
    decide +kernel
  · rw [Bool.eq_false_iff]
    intro done
    obtain ⟨h, held, -, whose⟩ := (one _ _ _).1.1 done
    have named : h.holder = ⟨"A"⟩ := whose _ rfl
    have owned : l.holds[r "E3"]? = some ⟨⟨"B"⟩, ⟨0⟩, 5000, none⟩ := by decide +kernel
    cases held.symm.trans owned
    revert named
    decide

end Ledger

end Signalbox
