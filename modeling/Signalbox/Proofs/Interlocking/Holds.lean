import Signalbox.Interlocking.Ledger
import Signalbox.Proofs.Lookup

/-!
# What every operation does to the hold on a resource

A ledger is seen through the hold that it has on each resource.  Here is, operation by operation,
which hold stands on a resource afterwards; what these lemmas say is all that the theory of the
ledger needs to know of the operations.

* `Ledger.blocks_eq_false_iff` : which holds give way to a request;
* `Ledger.decide_allowed_iff` : a request is allowed exactly if no hold on what it names blocks it;
* `Ledger.holds_acquire`, `Ledger.holds_releaseAll`, `Ledger.holds_release`,
  `Ledger.holds_purge` : the hold on a resource after each operation;
* `Ledger.HeldBy` : who holds a resource, and what keeps it held.
-/

set_option autoImplicit false

namespace Signalbox

/-! ## Holds -/

namespace Hold

theorem isLive_iff {h : Hold} : h.isLive = true ↔ h.releasedAt = none := by
  simp [isLive]

theorem isLive_of_released {h : Hold} {t : Timestamp} (hr : h.releasedAt = some t) :
    h.isLive = false := by
  simp [isLive, hr]

@[simp] theorem isLive_release (h : Hold) (t : Timestamp) : (h.release t).isLive = false := rfl

/-- Released track opens a headway after its release, whenever it is looked at. -/
theorem availableAt_of_released {h : Hold} {t : Timestamp} (hr : h.releasedAt = some t)
    (now : Timestamp) : h.availableAt now = t.plus h.headway := by
  simp [availableAt, hr]

/-- The hold was released, and its headway has passed at the instant `t`. -/
def EndedBy (h : Hold) (t : Timestamp) : Prop :=
  ∃ u, h.releasedAt = some u ∧ u.plus h.headway ≤ t

theorem EndedBy.isLive_eq_false {h : Hold} {t : Timestamp} (ended : h.EndedBy t) :
    h.isLive = false := by
  obtain ⟨u, released, -⟩ := ended
  exact isLive_of_released released

theorem EndedBy.mono {h : Hold} {t : Timestamp} (ended : h.EndedBy t) {later : Timestamp}
    (hl : t ≤ later) : h.EndedBy later := by
  obtain ⟨u, released, passed⟩ := ended
  exact ⟨u, released, Timestamp.le_trans passed hl⟩

/-- Who may have a resource in spite of the hold on it: its own holder, who must say so while the
hold is live, and everybody once it has ended. -/
def GivesWay (h : Hold) (q : Request) : Prop :=
  (h.holder = q.holder ∧ (h.isLive = true → q.ignoreOwn = true)) ∨ h.EndedBy q.now

end Hold

namespace Ledger

/-! ## Judging -/

theorem blocks_of_isLive {h : Hold} (hl : h.isLive = true) (q : Request) :
    blocks h q = false ↔ h.holder = q.holder ∧ q.ignoreOwn = true := by
  simp [blocks, hl]

/-- A released hold blocks the others until its headway has passed. -/
theorem blocks_of_released {h : Hold} {t : Timestamp} (hr : h.releasedAt = some t) (q : Request) :
    blocks h q = false ↔ h.holder = q.holder ∨ t.plus h.headway ≤ q.now := by
  rw [blocks, Hold.isLive_of_released hr, Hold.availableAt_of_released hr]
  simp only [Bool.false_eq_true, if_false, Bool.and_eq_false_iff, decide_eq_false_iff_not,
    Timestamp.lt_iff, Timestamp.le_iff, ne_eq, Decidable.not_not, Nat.not_lt]

/-- **A hold blocks exactly the requests to which it does not give way.** -/
theorem blocks_eq_false_iff {h : Hold} {q : Request} : blocks h q = false ↔ h.GivesWay q := by
  unfold Hold.GivesWay
  cases hr : h.releasedAt with
  | none =>
    have live : h.isLive = true := Hold.isLive_iff.2 hr
    simp [blocks_of_isLive live, live, Hold.EndedBy, hr]
  | some t =>
    simp [blocks_of_released hr, Hold.isLive_of_released hr, Hold.EndedBy, hr]

theorem blocker?_eq_none_iff {l : Ledger} {q : Request} {r : Resource} :
    l.blocker? q r = none ↔ ∀ h, l.holds[r]? = some h → blocks h q = false := by
  unfold blocker?
  cases l.holds[r]? with
  | none => simp
  | some h => cases hb : blocks h q <;> simp [hb]

theorem mem_blockers {l : Ledger} {q : Request} {c : Claim} :
    c ∈ l.blockers q ↔
      c.resource ∈ q.resources ∧ l.holds[c.resource]? = some c.hold ∧ ¬ c.hold.GivesWay q := by
  have found (r : Resource) :
      l.blocker? q r = some c ↔
        r = c.resource ∧ l.holds[c.resource]? = some c.hold ∧ blocks c.hold q = true := by
    obtain ⟨s, k⟩ := c
    unfold blocker?
    constructor
    · intro h
      split at h
      · split at h
        · cases h
          exact ⟨rfl, by assumption, by assumption⟩
        · cases h
      · cases h
    · rintro ⟨rfl, held, blocked⟩
      simp only at held blocked
      rw [held]
      simp [blocked]
  rw [← blocks_eq_false_iff, Bool.not_eq_false, blockers, List.mem_filterMap]
  simp only [List.mem_eraseDups, found]
  constructor
  · rintro ⟨r, named, rfl, rest⟩
    exact ⟨named, rest⟩
  · rintro ⟨named, rest⟩
    exact ⟨_, named, rfl, rest⟩

/-- **A request is allowed exactly if no hold on what it names blocks it.** -/
theorem decide_allowed_iff {l : Ledger} {q : Request} :
    (l.decide q).allowed = true ↔
      ∀ r ∈ q.resources, ∀ h, l.holds[r]? = some h → blocks h q = false := by
  show (l.blockers q).isEmpty = true ↔ _
  rw [List.isEmpty_iff, blockers, List.filterMap_eq_nil_iff]
  simp only [List.mem_eraseDups, blocker?_eq_none_iff]

/-! ## The hold on a resource after an operation -/

theorem getElem?_foldl_insert (rs : List Resource) (h : Hold) (m : Std.ExtTreeMap Resource Hold)
    (r : Resource) :
    (rs.foldl (fun m r => m.insert r h) m)[r]? = if r ∈ rs then some h else m[r]? := by
  induction rs generalizing m with
  | nil => simp
  | cons s rs ih =>
    rw [List.foldl_cons, ih, lookup_insert]
    by_cases hr : r ∈ rs
    · simp [hr]
    · by_cases hs : r = s
      · simp [hs]
      · rw [if_neg hr, if_neg (Ne.symm hs), if_neg (by simp [hr, hs])]

theorem holds_record (l : Ledger) (q : Request) (r : Resource) :
    (l.record q).holds[r]? = if r ∈ q.resources then some (l.grant q) else l.holds[r]? := by
  rw [record]
  simp only [getElem?_foldl_insert, List.mem_eraseDups]

theorem acquire_of_denied {l : Ledger} {q : Request} (denied : (l.decide q).allowed = false) :
    (l.acquire q).1 = l := by
  show (if (l.decide q).allowed = true then l.record q else l) = l
  rw [denied]
  rfl

theorem holds_acquire (l : Ledger) (q : Request) (r : Resource) :
    (l.acquire q).1.holds[r]? =
      if (l.decide q).allowed = true ∧ r ∈ q.resources then some (l.grant q)
      else l.holds[r]? := by
  show (if (l.decide q).allowed = true then l.record q else l).holds[r]? = _
  by_cases hd : (l.decide q).allowed = true
  · simp [hd, holds_record]
  · simp [hd]

theorem isLive_of_isHeldBy {who : HolderId} {h : Hold} (held : isHeldBy who h = true) :
    h.isLive = true :=
  (Bool.and_eq_true_iff.1 held).1

/-- Exactly the live holds of the holder are released. -/
theorem holds_releaseAll (l : Ledger) (who : HolderId) (now : Timestamp) (r : Resource) :
    (l.releaseAll who now).1.holds[r]? =
      (l.holds[r]?).map fun h => if isHeldBy who h then h.release now else h := by
  rw [releaseAll]
  exact Std.ExtTreeMap.getElem?_map

/-- Whether a hold is live and of the expected holder, if one is expected. -/
def isReleasable (expected : Option HolderId) (h : Hold) : Bool :=
  h.isLive && expected.all (· = h.holder)

theorem release_of_isReleasable {l : Ledger} {s : Resource} {expected : Option HolderId} {h : Hold}
    (hs : l.holds[s]? = some h) (hr : isReleasable expected h = true) (now : Timestamp) :
    l.release s expected now = ({ l with holds := l.holds.insert s (h.release now) }, true) := by
  unfold isReleasable at hr
  unfold release
  rw [hs]
  simp only
  rw [if_pos hr]

theorem release_of_not_isReleasable {l : Ledger} {s : Resource} {expected : Option HolderId}
    (hs : ∀ h, l.holds[s]? = some h → isReleasable expected h = false) (now : Timestamp) :
    l.release s expected now = (l, false) := by
  unfold isReleasable at hs
  unfold release
  split
  · rename_i h hh
    rw [if_neg (by rw [hs h hh]; exact Bool.false_ne_true)]
  · rfl

theorem holds_release (l : Ledger) (s : Resource) (expected : Option HolderId) (now : Timestamp)
    (r : Resource) :
    (l.release s expected now).1.holds[r]? =
      (l.holds[r]?).map fun h =>
        if r = s ∧ isReleasable expected h = true then h.release now else h := by
  by_cases hc : ∃ h, l.holds[s]? = some h ∧ isReleasable expected h = true
  · obtain ⟨h, hs, hr⟩ := hc
    rw [release_of_isReleasable hs hr]
    simp only [lookup_insert]
    by_cases hrs : s = r
    · subst hrs
      simp [hs, hr]
    · simp [hrs, Ne.symm hrs]
  · have hn : ∀ h, l.holds[s]? = some h → isReleasable expected h = false := by
      intro h hs
      exact Bool.eq_false_iff.2 fun hr => hc ⟨h, hs, hr⟩
    rw [release_of_not_isReleasable hn]
    cases hl : l.holds[r]? with
    | none => rfl
    | some h =>
      have hk : ¬ (r = s ∧ isReleasable expected h = true) := by
        rintro ⟨rfl, hr⟩
        rw [hn h hl] at hr
        cases hr
      simp [hk]

theorem snd_release (l : Ledger) (s : Resource) (expected : Option HolderId) (now : Timestamp) :
    (l.release s expected now).2 = (l.holds[s]?).any (isReleasable expected) := by
  unfold release isReleasable
  cases l.holds[s]? with
  | none => rfl
  | some h =>
    simp only [Option.any_some]
    split
    · rename_i releasable
      exact releasable.symm
    · rename_i kept
      exact (Bool.eq_false_iff.2 kept).symm

theorem isCurrent_eq_false_iff {h : Hold} {t : Timestamp} :
    isCurrent t h = false ↔ h.EndedBy t := by
  unfold isCurrent Hold.EndedBy
  cases hr : h.releasedAt with
  | none => simp [Hold.isLive, hr]
  | some u =>
    rw [Hold.availableAt_of_released hr, Hold.isLive_of_released hr]
    simp [Timestamp.lt_iff, Timestamp.le_iff]

/-- Exactly the released holds whose headway has passed are forgotten. -/
theorem holds_purge (l : Ledger) (now : Timestamp) (r : Resource) :
    (l.purge now).1.holds[r]? = (l.holds[r]?).filter (isCurrent now) := by
  rw [purge]
  exact Std.ExtTreeMap.getElem?_filter'

theorem mem_claims {l : Ledger} {c : Claim} :
    c ∈ l.claims ↔ l.holds[c.resource]? = some c.hold := by
  obtain ⟨r, h⟩ := c
  rw [claims, List.mem_map, ← Std.ExtTreeMap.mem_toList_iff_getElem?_eq_some]
  constructor
  · rintro ⟨⟨s, k⟩, mem, same⟩
    cases same
    exact mem
  · intro mem
    exact ⟨(r, h), mem, rfl⟩

/-! ## Settings -/

@[simp] theorem settings_acquire (l : Ledger) (q : Request) :
    (l.acquire q).1.settings = l.settings := by
  show (if (l.decide q).allowed = true then l.record q else l).settings = _
  split <;> rfl

@[simp] theorem settings_release (l : Ledger) (r : Resource) (expected : Option HolderId)
    (now : Timestamp) : (l.release r expected now).1.settings = l.settings := by
  unfold release
  split
  · split <;> rfl
  · rfl

theorem acquireAll_cons (l : Ledger) (q : Request) (qs : List Request) :
    (l.acquireAll (q :: qs)).1 = ((l.acquire q).1.acquireAll qs).1 := rfl

theorem settings_acquireAll (l : Ledger) (qs : List Request) :
    (l.acquireAll qs).1.settings = l.settings := by
  induction qs generalizing l with
  | nil => rfl
  | cons q qs ih => rw [acquireAll_cons, ih, settings_acquire]

/-! ## Who holds a resource -/

section

variable {l : Ledger} {who : HolderId} {x : Resource}

/-- A live hold of this holder stands on the resource. -/
def HeldBy (l : Ledger) (who : HolderId) (x : Resource) : Prop :=
  ∃ h, l.holds[x]? = some h ∧ h.isLive = true ∧ h.holder = who

theorem HeldBy.unique {other : HolderId} (h : l.HeldBy who x) (k : l.HeldBy other x) :
    who = other := by
  obtain ⟨h, hx, -, rfl⟩ := h
  obtain ⟨k, kx, -, rfl⟩ := k
  rw [hx] at kx
  cases kx
  rfl

theorem heldBy_of_allowed {q : Request} (allowed : (l.decide q).allowed = true)
    (named : x ∈ q.resources) : (l.acquire q).1.HeldBy q.holder x := by
  refine ⟨l.grant q, ?_, rfl, rfl⟩
  rw [holds_acquire, if_pos ⟨allowed, named⟩]

/-- What is held is only granted to its holder, who says to ignore that. -/
theorem HeldBy.of_allowed {q : Request} (h : l.HeldBy who x)
    (allowed : (l.decide q).allowed = true) (named : x ∈ q.resources) :
    who = q.holder ∧ q.ignoreOwn = true := by
  obtain ⟨h, hx, live, rfl⟩ := h
  exact (blocks_of_isLive live q).1 (decide_allowed_iff.1 allowed x named h hx)

/-- What is held stays held by the same holder, whoever asks for what. -/
theorem HeldBy.acquire (h : l.HeldBy who x) (q : Request) : (l.acquire q).1.HeldBy who x := by
  by_cases granted : (l.decide q).allowed = true ∧ x ∈ q.resources
  · rw [(h.of_allowed granted.1 granted.2).1]
    exact heldBy_of_allowed granted.1 granted.2
  · obtain ⟨h, hx, live, whose⟩ := h
    exact ⟨h, by rw [holds_acquire, if_neg granted, hx], live, whose⟩

theorem HeldBy.acquireAll (h : l.HeldBy who x) (qs : List Request) :
    (l.acquireAll qs).1.HeldBy who x := by
  induction qs generalizing l with
  | nil => exact h
  | cons q qs ih => exact ih (h.acquire q)

theorem HeldBy.releaseAll {leaver : HolderId} (h : l.HeldBy who x) (other : who ≠ leaver)
    (now : Timestamp) : (l.releaseAll leaver now).1.HeldBy who x := by
  obtain ⟨h, hx, live, rfl⟩ := h
  refine ⟨h, ?_, live, rfl⟩
  have kept : isHeldBy leaver h = false := by simp [isHeldBy, other]
  rw [holds_releaseAll, hx, Option.map_some, kept]
  rfl

theorem HeldBy.purge (h : l.HeldBy who x) (now : Timestamp) : (l.purge now).1.HeldBy who x := by
  obtain ⟨h, hx, live, whose⟩ := h
  refine ⟨h, ?_, live, whose⟩
  have current : isCurrent now h = true := by simp [isCurrent, live]
  rw [holds_purge, hx, Option.filter_some, if_pos current]

end

end Ledger

end Signalbox
