import Signalbox.Proofs.Interlocking.Headway

/-!
# Forecast

A decision names the earliest instant at which everything that was asked for is free.  It is exact
if whoever stands in the way gives up at once: from that instant on the request is allowed, and at
no earlier one.  On a ledger that nobody touches, a signal only ever gets better.

* `Ledger.earliest_le_iff`       : the earliest instant is the last at which a claim in the way opens;
* `Ledger.aspect_le_caution_iff` : when a signal shows caution at worst;
* `Ledger.ClearedFor`            : the ledger after exactly the live claims in the way were released;
* `Ledger.earliest_exact`        : the request is allowed exactly from the earliest instant on, and
  its aspect never gets worse.
-/

set_option autoImplicit false

namespace Signalbox

/-- The same request, made at another instant. -/
def Request.askedAt (q : Request) (t : Timestamp) : Request := { q with now := t }

namespace Hold

variable {h : Hold} {q : Request} {t u : Timestamp}

theorem GivesWay.mono (way : h.GivesWay (q.askedAt t)) (later : t ≤ u) :
    h.GivesWay (q.askedAt u) := by
  rcases way with own | ended
  · exact Or.inl own
  · exact Or.inr (ended.mono later)

/-- When released track opens does not depend on when it is looked at. -/
theorem availableAt_eq (released : h.isLive = false) (t u : Timestamp) :
    h.availableAt t = h.availableAt u := by
  cases hr : h.releasedAt with
  | none => rw [isLive_iff.2 hr] at released; cases released
  | some v => rw [availableAt_of_released hr, availableAt_of_released hr]

/-- What is left of a hold once it is given up: it is released, if it is live still. -/
def givenUp (h : Hold) (now : Timestamp) : Hold := if h.isLive = true then h.release now else h

/-- **A hold that is given up opens when it was said to**, to everybody but its holder. -/
theorem givesWay_givenUp_iff (foreign : h.holder ≠ q.holder)
    (begun : h.isLive = true → h.acquiredAt ≤ q.now) (t : Timestamp) :
    (h.givenUp q.now).GivesWay (q.askedAt t) ↔ h.availableAt q.now ≤ t := by
  unfold givenUp
  cases hr : h.releasedAt with
  | none =>
    have live : h.isLive = true := isLive_iff.2 hr
    have opens : h.availableAt q.now = q.now.plus h.headway := by
      simp only [availableAt, hr, Timestamp.max_eq_right (begun live)]
    rw [if_pos live, opens]
    simp [GivesWay, EndedBy, release, Request.askedAt, foreign]
  | some v =>
    rw [if_neg (by simp [isLive_of_released hr]), availableAt_of_released hr]
    simp [GivesWay, EndedBy, Request.askedAt, foreign, hr]

end Hold

namespace Ledger

variable {l m : Ledger} {q : Request} {t u : Timestamp}

/-! ## What a decision says -/

theorem allowed_iff_blockers : (l.decide q).allowed = true ↔ l.blockers q = [] :=
  List.isEmpty_iff

/-- **The earliest instant** is reached when it is not too early to ask and every claim opens. -/
theorem earliest_le_iff {now : Timestamp} {cs : List Claim} :
    earliest now cs ≤ t ↔ now ≤ t ∧ ∀ c ∈ cs, c.hold.availableAt now ≤ t := by
  have latest (start : Timestamp) :
      cs.foldl (fun t c => max t (c.hold.availableAt now)) start ≤ t ↔
        start ≤ t ∧ ∀ c ∈ cs, c.hold.availableAt now ≤ t := by
    induction cs generalizing start with
    | nil => simp
    | cons c cs ih =>
      rw [List.foldl_cons, ih, Timestamp.max_le_iff, List.forall_mem_cons, and_assoc]
  exact latest now

theorem aspect_eq_clear_iff {s : HeadwaySettings} {now : Timestamp} {cs : List Claim} :
    aspect s now cs = .clear ↔ cs = [] := by
  unfold aspect
  split
  · rename_i free
    exact iff_of_true rfl (List.isEmpty_iff.1 free)
  · rename_i blocked
    refine iff_of_false ?_ fun free => blocked (List.isEmpty_iff.2 free)
    split <;> simp

/-- **Caution at worst**: nothing that is held is in the way, and all of it opens soon. -/
theorem aspect_le_caution_iff {s : HeadwaySettings} {now : Timestamp} {cs : List Claim} :
    aspect s now cs ≤ .caution ↔
      ∀ c ∈ cs, c.hold.isLive = false ∧ c.hold.availableAt now ≤ now.plus s.cautionWindow := by
  have soon : (!cs.any (fun c => c.hold.isLive) &&
      earliest now cs ≤ now.plus s.cautionWindow) = true ↔
      ∀ c ∈ cs, c.hold.isLive = false ∧ c.hold.availableAt now ≤ now.plus s.cautionWindow := by
    simp [earliest_le_iff, Timestamp.le_plus, forall_and]
  unfold aspect
  split
  · rename_i free
    rw [List.isEmpty_iff.1 free]
    exact iff_of_true (by decide) (by simp)
  · rw [← soon]
    split
    · rename_i all
      exact iff_of_true (Nat.le_refl _) all
    · rename_i all
      exact iff_of_false (by decide) all

/-! ## The same request later -/

theorem mem_blockers_of_later {c : Claim} (h : c ∈ l.blockers (q.askedAt u)) (later : t ≤ u) :
    c ∈ l.blockers (q.askedAt t) := by
  obtain ⟨named, held, stays⟩ := mem_blockers.1 h
  exact mem_blockers.2 ⟨named, held, fun way => stays (way.mono later)⟩

theorem allowed_of_later (allowed : (l.decide (q.askedAt t)).allowed = true) (later : t ≤ u) :
    (l.decide (q.askedAt u)).allowed = true := by
  rw [allowed_iff_blockers, List.eq_nil_iff_forall_not_mem] at allowed ⊢
  intro c hc
  exact allowed c (mem_blockers_of_later hc later)

/-- **A signal only gets better** as time goes by. -/
theorem aspect_le_of_later (l : Ledger) (q : Request) (later : t ≤ u) :
    (l.decide (q.askedAt u)).aspect ≤ (l.decide (q.askedAt t)).aspect := by
  cases before : (l.decide (q.askedAt t)).aspect with
  | clear =>
    have allowed := allowed_of_later (allowed_iff_blockers.2 (aspect_eq_clear_iff.1 before)) later
    exact Aspect.le_clear_iff.2 (aspect_eq_clear_iff.2 (allowed_iff_blockers.1 allowed))
  | caution =>
    have soon : (l.decide (q.askedAt t)).aspect ≤ .caution := by
      rw [before]
      exact Nat.le_refl _
    refine aspect_le_caution_iff.2 fun c hc => ?_
    obtain ⟨released, opens⟩ := aspect_le_caution_iff.1 soon c (mem_blockers_of_later hc later)
    refine ⟨released, ?_⟩
    show c.hold.availableAt u ≤ u.plus l.settings.cautionWindow
    rw [Hold.availableAt_eq released u t]
    exact Timestamp.le_trans opens (Timestamp.plus_le_plus later _)
  | stop => exact Aspect.le_stop _

/-! ## Once the way is cleared -/

/-- The claims that stand in the way of a request and that somebody holds still. -/
def liveBlockers (l : Ledger) (q : Request) : List Claim :=
  (l.decide q).blockers.filter fun c => c.hold.isLive

/-- `m` is the ledger `l` after exactly the live claims that stand in the way of a request were
released, at the instant at which it was made. -/
def ClearedFor (l : Ledger) (q : Request) (m : Ledger) : Prop :=
  m.settings = l.settings ∧ ∀ r, m.holds[r]? =
    (l.holds[r]?).map fun h => if ⟨r, h⟩ ∈ (l.decide q).blockers then h.givenUp q.now else h

theorem holds_run_release (l : Ledger) (rs : List Resource) (now : Timestamp) (r : Resource) :
    (l.run (rs.map fun s => .release s none now)).holds[r]? =
      (l.holds[r]?).map fun h => if r ∈ rs then h.givenUp now else h := by
  induction rs generalizing l with
  | nil => simp [run]
  | cons s rs ih =>
    show ((l.release s none now).1.run _).holds[r]? = _
    rw [ih, holds_release, Option.map_map]
    congr 1
    funext h
    cases live : h.isLive <;> by_cases first : r = s <;>
      simp [Hold.givenUp, isReleasable, live, first]

/-- **Releasing the live claims in the way**, one after the other, clears it. -/
theorem clearedFor_run (l : Ledger) (q : Request) :
    l.ClearedFor q
      (l.run (((l.liveBlockers q).map Claim.resource).map fun r => .release r none q.now)) := by
  refine ⟨settings_run l _, fun r => ?_⟩
  rw [holds_run_release]
  cases held : l.holds[r]? with
  | none => rfl
  | some h =>
    have mem : r ∈ (l.liveBlockers q).map Claim.resource ↔
        ⟨r, h⟩ ∈ (l.decide q).blockers ∧ h.isLive = true := by
      rw [List.mem_map]
      constructor
      · rintro ⟨c, hc, rfl⟩
        obtain ⟨blocks, live⟩ := List.mem_filter.1 hc
        have same := (mem_blockers.1 blocks).2.1
        rw [held, Option.some.injEq] at same
        subst same
        exact ⟨blocks, live⟩
      · intro blocks
        exact ⟨⟨r, h⟩, List.mem_filter.2 blocks, rfl⟩
    simp only [Option.map_some, mem, Hold.givenUp]
    cases h.isLive <;> simp

/-- **Once the way is cleared the request is allowed exactly from the earliest instant on.** -/
theorem ClearedFor.allowed_iff (cleared : l.ClearedFor q m)
    (foreign : ∀ c ∈ (l.decide q).blockers, c.hold.holder ≠ q.holder)
    (begun : ∀ c ∈ (l.decide q).blockers, c.hold.isLive = true → c.hold.acquiredAt ≤ q.now)
    (later : q.now ≤ t) :
    (m.decide (q.askedAt t)).allowed = true ↔ (l.decide q).earliest ≤ t := by
  have opens (c : Claim) (hc : c ∈ (l.decide q).blockers) :=
    Hold.givesWay_givenUp_iff (foreign c hc) (begun c hc) t
  have reached : (l.decide q).earliest ≤ t ↔
      q.now ≤ t ∧ ∀ c ∈ (l.decide q).blockers, c.hold.availableAt q.now ≤ t := earliest_le_iff
  simp only [decide_allowed_iff, blocks_eq_false_iff, reached]
  constructor
  · intro free
    refine ⟨later, fun c hc => (opens c hc).1 ?_⟩
    obtain ⟨named, held, -⟩ := mem_blockers.1 hc
    apply free c.resource named
    rw [cleared.2, held, Option.map_some, if_pos hc]
  · rintro ⟨-, opened⟩ r named k hk
    rw [cleared.2, Option.map_eq_some_iff] at hk
    obtain ⟨h, held, rfl⟩ := hk
    split
    · rename_i blocked
      exact (opens _ blocked).2 (opened _ blocked)
    · rename_i unblocked
      have way : h.GivesWay (q.askedAt q.now) := by
        by_contra stays
        exact unblocked (mem_blockers.2 ⟨named, held, stays⟩)
      exact way.mono later

/-- **The earliest instant is exact.**  If everything that stands in the way of a request is
somebody else's, and was not acquired later than the request was made, then releasing exactly the
live claims among it allows the request from the earliest instant on and not before.  On any ledger
that nobody touches, the same request never shows a worse aspect later, and is not denied once it
was allowed. -/
theorem earliest_exact (l : Ledger) (q : Request) :
    l.ClearedFor q
      (l.run (((l.liveBlockers q).map Claim.resource).map fun r => .release r none q.now)) ∧
    ((∀ c ∈ (l.decide q).blockers, c.hold.holder ≠ q.holder) →
      (∀ c ∈ (l.decide q).blockers, c.hold.isLive = true → c.hold.acquiredAt ≤ q.now) →
      ∀ m, l.ClearedFor q m → ∀ t, q.now ≤ t →
        ((m.decide (q.askedAt t)).allowed = true ↔ (l.decide q).earliest ≤ t)) ∧
    ∀ t u, t ≤ u →
      (l.decide (q.askedAt u)).aspect ≤ (l.decide (q.askedAt t)).aspect ∧
      ((l.decide (q.askedAt t)).allowed = true → (l.decide (q.askedAt u)).allowed = true) := by
  refine ⟨clearedFor_run l q, ?_, ?_⟩
  · intro foreign begun m cleared t later
    exact cleared.allowed_iff foreign begun later
  · intro t u later
    exact ⟨aspect_le_of_later l q later, fun allowed => allowed_of_later allowed later⟩

/-- One train is on the track, another one has just left it.  A third one that asks is told when it
may go if the first one leaves at once, and so it may, at that instant and not a moment before. -/
theorem earliest_exact_behind_two_trains :
    let r (key : String) : Resource := ⟨.custom, key⟩
    let ask (who : String) (now : UInt64) (keys : List String) : Request :=
      ⟨⟨who⟩, false, ⟨now⟩, keys.map r⟩
    let l : Ledger := (empty {}).run [.acquire (ask "A" 0 ["E1"]), .acquire (ask "C" 0 ["E2"]),
      .release (r "E2") none ⟨500⟩]
    let q := ask "B" 1000 ["E1", "E2", "E3"]
    let m := (l.release (r "E1") none ⟨1000⟩).1
    (l.decide q).earliest = ⟨6000⟩ ∧ (l.decide q).blockers.length = 2 ∧
      (∀ c ∈ (l.decide q).blockers, c.hold.holder ≠ q.holder) ∧
      (∀ c ∈ (l.decide q).blockers, c.hold.isLive = true → c.hold.acquiredAt ≤ q.now) ∧
      (m.decide (q.askedAt ⟨5999⟩)).allowed = false ∧
      (m.decide (q.askedAt ⟨6000⟩)).allowed = true ∧
      (m.decide (q.askedAt ⟨6000⟩)).aspect ≤ (m.decide (q.askedAt ⟨5999⟩)).aspect := by
  intro r ask l q m
  have told : (l.decide q).earliest = ⟨6000⟩ := by decide +kernel
  have foreign : ∀ c ∈ (l.decide q).blockers, c.hold.holder ≠ q.holder := by decide +kernel
  have begun : ∀ c ∈ (l.decide q).blockers, c.hold.isLive = true → c.hold.acquiredAt ≤ q.now := by
    decide +kernel
  have live : (l.liveBlockers q).map Claim.resource = [r "E1"] := by decide +kernel
  obtain ⟨cleared, exactly, -⟩ := earliest_exact l q
  rw [live] at cleared
  have go (t : Timestamp) (later : q.now ≤ t) :
      (m.decide (q.askedAt t)).allowed = true ↔ (⟨6000⟩ : Timestamp) ≤ t := by
    rw [← told]
    exact exactly foreign begun m cleared t later
  obtain ⟨-, -, better⟩ := earliest_exact m q
  refine ⟨told, by decide +kernel, foreign, begun, ?_, (go ⟨6000⟩ (by decide)).2 (by decide),
    (better ⟨5999⟩ ⟨6000⟩ (by decide)).1⟩
  exact Bool.eq_false_iff.2 fun early => absurd ((go ⟨5999⟩ (by decide)).1 early) (by decide)

end Ledger

end Signalbox
