import Signalbox.Proofs.Interlocking.Headway

/-!
# Purging

A purge at the instant `t` forgets claims whose headway has passed.  Nobody can tell afterwards: as
long as no call names an instant before `t`, every later call is answered as if nothing had been
forgotten.  The two ledgers, the one that was purged and the one that was not, stay the same up to
claims that had ended at `t` (`Ledger.Trimmed`), whatever is called.

* `Ledger.Call`            : what a ledger is asked to do, and what it answers;
* `Ledger.Trimmed.perform` : one call keeps the two ledgers the same and answers the same on both;
* `Ledger.purge_invisible` : so does every sequence of calls after a purge.
-/

set_option autoImplicit false

namespace Signalbox

namespace Ledger

/-! ## Calls -/

/-- What a ledger is asked to do. -/
inductive Call where
  | judge (q : Request)
  | acquire (q : Request)
  | arbitrate (qs : List Request)
  | releaseAll (who : HolderId) (now : Timestamp)
  | release (r : Resource) (expected : Option HolderId) (now : Timestamp)
  | claimsOf (who : HolderId)
  | liveCount

/-- What a ledger answers. -/
inductive Answer where
  | decision (d : Decision)
  | decisions (ds : List (HolderId × Decision))
  | count (n : Nat)
  | flag (b : Bool)
  | claims (cs : List Claim)
deriving DecidableEq

namespace Call

/-- The instants that a call names. -/
def times : Call → List Timestamp
  | judge q => [q.now]
  | acquire q => [q.now]
  | arbitrate qs => qs.map Request.now
  | releaseAll _ now => [now]
  | release _ _ now => [now]
  | claimsOf _ => []
  | liveCount => []

/-- The ledger after a call, and the answer to it. -/
def perform (l : Ledger) : Call → Ledger × Answer
  | judge q => (l, .decision (l.decide q))
  | acquire q => ((l.acquire q).1, .decision (l.acquire q).2)
  | arbitrate qs => ((l.arbitrate qs).1, .decisions (l.arbitrate qs).2)
  | releaseAll who now => ((l.releaseAll who now).1, .count (l.releaseAll who now).2)
  | release r expected now => ((l.release r expected now).1, .flag (l.release r expected now).2)
  | claimsOf who => (l, .claims (l.claimsOf who))
  | liveCount => (l, .count l.liveCount)

end Call

/-- The ledger after some calls, one after the other. -/
def after (l : Ledger) (calls : List Call) : Ledger := calls.foldl (fun l c => (c.perform l).1) l

/-- The answers to some calls, one after the other. -/
def answers (l : Ledger) : List Call → List Answer
  | [] => []
  | c :: calls => (c.perform l).2 :: (c.perform l).1.answers calls

/-! ## The same up to what has ended -/

/-- `m` is the ledger `l`, but for claims that it may lack because they had ended at the instant
`t`. -/
structure Trimmed (t : Timestamp) (l m : Ledger) : Prop where
  settings : m.settings = l.settings
  holds : ∀ r : Resource, m.holds[r]? = l.holds[r]? ∨
    (m.holds[r]? = none ∧ ∃ h : Hold, l.holds[r]? = some h ∧ h.EndedBy t)

theorem trimmed_purge (l : Ledger) (t : Timestamp) : Trimmed t l (l.purge t).1 := by
  refine ⟨rfl, fun r => ?_⟩
  rw [holds_purge]
  cases hr : l.holds[r]? with
  | none => exact Or.inl rfl
  | some h =>
    cases current : isCurrent t h with
    | false => exact Or.inr ⟨by simp [current], h, rfl, isCurrent_eq_false_iff.1 current⟩
    | true => exact Or.inl (by simp [current])

namespace Trimmed

variable {t : Timestamp} {l m : Ledger}

theorem decide (h : Trimmed t l m) {q : Request} (late : t ≤ q.now) : m.decide q = l.decide q := by
  have same : m.blocker? q = l.blocker? q := by
    funext r
    rcases h.holds r with same | ⟨gone, k, held, ended⟩
    · rw [blocker?, blocker?, same]
    · have way : blocks k q = false := blocks_eq_false_iff.2 (Or.inr (ended.mono late))
      simp [blocker?, gone, held, way]
  simp only [Ledger.decide, blockers, same, h.settings]

theorem acquire (h : Trimmed t l m) {q : Request} (late : t ≤ q.now) :
    Trimmed t (l.acquire q).1 (m.acquire q).1 := by
  refine ⟨by rw [settings_acquire, settings_acquire, h.settings], fun r => ?_⟩
  rw [holds_acquire, holds_acquire, h.decide late]
  split
  · left
    rw [grant, grant, h.settings]
  · exact h.holds r

/-- Several requests are answered the same, and leave the same up to what has ended. -/
theorem acquireAll (h : Trimmed t l m) {qs : List Request} (late : ∀ q ∈ qs, t ≤ q.now) :
    Trimmed t (l.acquireAll qs).1 (m.acquireAll qs).1 ∧
      (m.acquireAll qs).2 = (l.acquireAll qs).2 := by
  induction qs generalizing l m with
  | nil => exact ⟨h, rfl⟩
  | cons q qs ih =>
    have first : t ≤ q.now := late q (List.mem_cons_self ..)
    obtain ⟨after, same⟩ := ih (h.acquire first) fun p hp => late p (List.mem_cons_of_mem _ hp)
    refine ⟨after, ?_⟩
    show (q.holder, m.decide q) :: ((m.acquire q).1.acquireAll qs).2 =
      (q.holder, l.decide q) :: ((l.acquire q).1.acquireAll qs).2
    rw [h.decide first, same]

/-- Whatever changes live holds only leaves the same up to what has ended. -/
theorem map {l' m' : Ledger} (h : Trimmed t l m) (settings : m'.settings = l'.settings)
    (f : Resource → Hold → Hold) (fixed : ∀ r k, k.isLive = false → f r k = k)
    (hl : ∀ r, l'.holds[r]? = (l.holds[r]?).map (f r))
    (hm : ∀ r, m'.holds[r]? = (m.holds[r]?).map (f r)) : Trimmed t l' m' := by
  refine ⟨settings, fun r => ?_⟩
  rw [hl, hm]
  rcases h.holds r with same | ⟨gone, k, held, ended⟩
  · exact Or.inl (by rw [same])
  · refine Or.inr ⟨by rw [gone, Option.map_none], k, ?_, ended⟩
    rw [held, Option.map_some, fixed r k ended.isLive_eq_false]

theorem releaseAll (h : Trimmed t l m) (who : HolderId) (now : Timestamp) :
    Trimmed t (l.releaseAll who now).1 (m.releaseAll who now).1 := by
  refine h.map h.settings (fun _ k => if isHeldBy who k then k.release now else k) ?_
    (holds_releaseAll l who now) (holds_releaseAll m who now)
  intro r k released
  simp [isHeldBy, released]

theorem release (h : Trimmed t l m) (s : Resource) (expected : Option HolderId) (now : Timestamp) :
    Trimmed t (l.release s expected now).1 (m.release s expected now).1 ∧
      (m.release s expected now).2 = (l.release s expected now).2 := by
  constructor
  · refine h.map (by rw [settings_release, settings_release, h.settings])
      (fun r k => if r = s ∧ isReleasable expected k = true then k.release now else k) ?_
      (holds_release l s expected now) (holds_release m s expected now)
    intro r k released
    simp [isReleasable, released]
  · rw [snd_release, snd_release]
    rcases h.holds s with same | ⟨gone, k, held, ended⟩
    · rw [same]
    · simp [gone, held, isReleasable, ended.isLive_eq_false]

theorem filter_toList (h : Trimmed t l m) {p : Hold → Bool}
    (live : ∀ k, p k = true → k.isLive = true) :
    m.holds.toList.filter (fun e => p e.2) = l.holds.toList.filter (fun e => p e.2) := by
  have same : m.holds.filter (fun _ k => p k) = l.holds.filter (fun _ k => p k) := by
    apply Std.ExtTreeMap.ext_getElem?
    intro r
    rw [Std.ExtTreeMap.getElem?_filter', Std.ExtTreeMap.getElem?_filter']
    rcases h.holds r with same | ⟨gone, k, held, ended⟩
    · rw [same]
    · have dead : p k = false := by
        apply Bool.eq_false_iff.2
        intro listed
        have := live k listed
        rw [ended.isLive_eq_false] at this
        cases this
      simp [Option.filter, gone, held, dead]
  have listed (x : Ledger) :
      (x.holds.filter fun _ k => p k).toList = x.holds.toList.filter fun e => p e.2 :=
    Std.ExtTreeMap.toList_filter
  rw [← listed, ← listed, same]

theorem countP_toList (h : Trimmed t l m) {p : Hold → Bool}
    (live : ∀ k, p k = true → k.isLive = true) :
    m.holds.toList.countP (fun e => p e.2) = l.holds.toList.countP (fun e => p e.2) := by
  rw [List.countP_eq_length_filter, List.countP_eq_length_filter, h.filter_toList live]

theorem claimsOf (h : Trimmed t l m) (who : HolderId) : m.claimsOf who = l.claimsOf who := by
  rw [Ledger.claimsOf, Ledger.claimsOf, claims, claims, List.filter_map, List.filter_map]
  exact congrArg _ (h.filter_toList fun k hk => isLive_of_isHeldBy hk)

theorem liveCount (h : Trimmed t l m) : m.liveCount = l.liveCount := by
  rw [Ledger.liveCount, Ledger.liveCount, claims, claims, List.countP_map, List.countP_map]
  exact h.countP_toList fun _ live => live

/-- **One call** is answered the same on both ledgers, and leaves them the same up to what has
ended. -/
theorem perform (h : Trimmed t l m) {c : Call} (late : ∀ u ∈ c.times, t ≤ u) :
    Trimmed t (c.perform l).1 (c.perform m).1 ∧ (c.perform m).2 = (c.perform l).2 := by
  cases c with
  | judge q =>
    exact ⟨h, congrArg Answer.decision (h.decide (late q.now (by simp [Call.times])))⟩
  | acquire q =>
    have late : t ≤ q.now := late q.now (by simp [Call.times])
    exact ⟨h.acquire late, congrArg Answer.decision (h.decide late)⟩
  | arbitrate qs =>
    have late : ∀ q ∈ qs.mergeSort before, t ≤ q.now := fun q hq =>
      late q.now (List.mem_map_of_mem (List.mem_mergeSort.1 hq))
    exact ⟨(h.acquireAll late).1, congrArg Answer.decisions (h.acquireAll late).2⟩
  | releaseAll who now =>
    have same : (m.releaseAll who now).2 = (l.releaseAll who now).2 :=
      h.countP_toList fun k hk => isLive_of_isHeldBy hk
    exact ⟨h.releaseAll who now, congrArg Answer.count same⟩
  | release s expected now =>
    exact ⟨(h.release s expected now).1, congrArg Answer.flag (h.release s expected now).2⟩
  | claimsOf who => exact ⟨h, congrArg Answer.claims (h.claimsOf who)⟩
  | liveCount => exact ⟨h, congrArg Answer.count h.liveCount⟩

theorem after (h : Trimmed t l m) {calls : List Call} (late : ∀ c ∈ calls, ∀ u ∈ c.times, t ≤ u) :
    Trimmed t (l.after calls) (m.after calls) := by
  induction calls generalizing l m with
  | nil => exact h
  | cons c calls ih =>
    rw [List.forall_mem_cons] at late
    exact ih (h.perform late.1).1 late.2

theorem answers (h : Trimmed t l m) {calls : List Call}
    (late : ∀ c ∈ calls, ∀ u ∈ c.times, t ≤ u) : m.answers calls = l.answers calls := by
  induction calls generalizing l m with
  | nil => rfl
  | cons c calls ih =>
    rw [List.forall_mem_cons] at late
    rw [Ledger.answers, Ledger.answers, (h.perform late.1).2, ih (h.perform late.1).1 late.2]

end Trimmed

/-- **Purging is invisible.**  After a purge at the instant `t`, calls that name no earlier instant
are answered as if it had not been, and at every point between them the two ledgers are the same but
for claims that had ended at `t`. -/
theorem purge_invisible (l : Ledger) {t : Timestamp} {calls : List Call}
    (late : ∀ c ∈ calls, ∀ u ∈ c.times, t ≤ u) :
    (l.purge t).1.answers calls = l.answers calls ∧
      ∀ done, done <+: calls → Trimmed t (l.after done) ((l.purge t).1.after done) := by
  have purged : Trimmed t l (l.purge t).1 := trimmed_purge l t
  refine ⟨purged.answers late, fun done before => ?_⟩
  exact purged.after fun c hc => late c (before.subset hc)

/-- A claim is forgotten at the instant at which its headway has passed.  Whoever asks for the
resource at that instant, gets it, gives it up and counts finds nothing missing. -/
theorem purge_invisible_when_headway_ends :
    let r (key : String) : Resource := ⟨.custom, key⟩
    let ask (who : String) (now : UInt64) (keys : List String) : Request :=
      ⟨⟨who⟩, false, ⟨now⟩, keys.map r⟩
    let l : Ledger := (empty {}).run
      [.acquire (ask "A" 0 ["E1", "E2"]), .release (r "E1") none ⟨1000⟩]
    let calls : List Call :=
      [.judge (ask "B" 6000 ["E1", "E2"]), .arbitrate [ask "C" 6001 ["E1"], ask "B" 6000 ["E1"]],
        .release (r "E1") (some ⟨"B"⟩) ⟨6500⟩, .releaseAll ⟨"A"⟩ ⟨7000⟩, .claimsOf ⟨"B"⟩, .liveCount]
    (l.purge ⟨6000⟩).2 = 1 ∧ (∀ c ∈ calls, ∀ u ∈ c.times, (⟨6000⟩ : Timestamp) ≤ u) ∧
      (l.purge ⟨6000⟩).1.answers calls = l.answers calls ∧
      Trimmed ⟨6000⟩ (l.after calls) ((l.purge ⟨6000⟩).1.after calls) := by
  intro r ask l calls
  have late : ∀ c ∈ calls, ∀ u ∈ c.times, (⟨6000⟩ : Timestamp) ≤ u := by decide
  obtain ⟨same, trimmed⟩ := purge_invisible l late
  exact ⟨by decide +kernel, late, same, trimmed calls List.prefix_rfl⟩

end Ledger

end Signalbox
