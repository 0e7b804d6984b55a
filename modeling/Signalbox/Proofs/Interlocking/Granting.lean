import Mathlib.Data.List.Nodup
import Signalbox.Proofs.Interlocking.Headway

/-!
# Granting

A request is granted as a whole or not at all, and only over holds that give way to it.  Requests
that come together are judged one by one, in an order that depends on nothing but when and by whom
they were made, so that it does not matter in which order they are handed in.

* `Ledger.acquire_all_or_nothing` : what becomes of the ledger when a request is made;
* `Ledger.verdicts`               : requests made one after the other, with the decision on each;
* `Ledger.arbitrate_fair`         : simultaneous requests get the verdicts of their order, the
  earlier ones win, and nothing but the ledger and earlier grants stands in anyone's way.
-/

set_option autoImplicit false

namespace Signalbox

namespace Ledger

/-! ## One request -/

/-- **All or nothing.**  A request is answered with the decision on the ledger as it is, and allowed
exactly if every hold on what it names gives way.  If it is denied, nothing changes at all; if it is
allowed, its holder gets a live hold on everything that it names, and nothing else changes. -/
theorem acquire_all_or_nothing (l : Ledger) (q : Request) :
    (l.acquire q).2 = l.decide q ∧
    ((l.decide q).allowed = true ↔ ∀ r ∈ q.resources, ∀ h, l.holds[r]? = some h → h.GivesWay q) ∧
    ((l.decide q).allowed = false → (l.acquire q).1 = l) ∧
    ((l.decide q).allowed = true →
      (l.acquire q).1.settings = l.settings ∧
      (∀ r ∈ q.resources, (l.acquire q).1.holds[r]? = some
        { holder := q.holder, acquiredAt := q.now, headway := l.settings.headway,
          releasedAt := none }) ∧
      ∀ r, r ∉ q.resources → (l.acquire q).1.holds[r]? = l.holds[r]?) := by
  refine ⟨rfl, ?_, acquire_of_denied, ?_⟩
  · simp only [decide_allowed_iff, blocks_eq_false_iff]
  · intro allowed
    refine ⟨settings_acquire l q, ?_, ?_⟩
    · intro r named
      rw [holds_acquire, if_pos ⟨allowed, named⟩]
      rfl
    · intro r unnamed
      rw [holds_acquire, if_neg fun granted => unnamed granted.2]

/-- A train renews what it holds, takes again what it gave up, and gets what is free.  If it asks
for another train's track besides, it gets nothing. -/
theorem acquire_all_or_nothing_renewal :
    let r (key : String) : Resource := ⟨.custom, key⟩
    let ask (who : String) (now : UInt64) (keys : List String) : Request :=
      ⟨⟨who⟩, true, ⟨now⟩, keys.map r⟩
    let l : Ledger := (empty {}).run [.acquire (ask "A" 0 ["E1", "E2"]), .release (r "E2") none ⟨100⟩,
      .acquire (ask "B" 0 ["E4"])]
    let modest := ask "A" 200 ["E1", "E2", "E1", "E3"]
    let greedy := ask "A" 200 ["E1", "E4"]
    ((l.decide modest).allowed = true ∧
      (∀ x ∈ modest.resources, (l.acquire modest).1.holds[x]? = some ⟨⟨"A"⟩, ⟨200⟩, 5000, none⟩) ∧
      (l.acquire modest).1.holds[r "E4"]? = l.holds[r "E4"]?) ∧
    (l.decide greedy).allowed = false ∧ (l.acquire greedy).1 = l := by
  intro r ask l modest greedy
  have allowed : (l.decide modest).allowed = true := by decide +kernel
  have denied : (l.decide greedy).allowed = false := by decide +kernel
  have headway : l.settings.headway = 5000 := by rw [settings_run]; rfl
  obtain ⟨-, -, -, granted⟩ := acquire_all_or_nothing l modest
  obtain ⟨-, -, unchanged, -⟩ := acquire_all_or_nothing l greedy
  obtain ⟨-, named, unnamed⟩ := granted allowed
  rw [headway] at named
  exact ⟨⟨allowed, named, unnamed (r "E4") (by decide)⟩, denied, unchanged denied⟩

/-! ## Requests one after the other -/

/-- Requests made one after the other, each with the decision on it. -/
def verdicts (l : Ledger) : List Request → List (Request × Decision)
  | [] => []
  | q :: qs => (q, (l.acquire q).2) :: (l.acquire q).1.verdicts qs

/-- Several requests are answered as if each of them was made after those before it. -/
theorem acquireAll_eq (l : Ledger) (qs : List Request) :
    l.acquireAll qs =
      (l.run (qs.map Operation.acquire), (l.verdicts qs).map fun v => (v.1.holder, v.2)) := by
  induction qs generalizing l with
  | nil => rfl
  | cons q qs ih =>
    show (((l.acquire q).1.acquireAll qs).1,
      (q.holder, (l.acquire q).2) :: ((l.acquire q).1.acquireAll qs).2) = _
    rw [ih]
    rfl

theorem mem_claims_acquire {l : Ledger} {q : Request} {c : Claim} (h : c ∈ (l.acquire q).1.claims) :
    c ∈ l.claims ∨
      (l.acquire q).2.allowed = true ∧ c.resource ∈ q.resources ∧ c.hold = l.grant q := by
  rw [mem_claims, holds_acquire] at h
  split at h
  · rename_i granted
    exact Or.inr ⟨granted.1, granted.2, (Option.some.inj h).symm⟩
  · exact Or.inl (mem_claims.2 h)

/-- **Nothing stands in the way** of a request but what stood in the ledger at the beginning and
what was granted to requests before it. -/
theorem mem_claims_of_mem_blockers {l : Ledger} {qs : List Request}
    {earlier later : List (Request × Decision)} {v : Request × Decision}
    (judged : l.verdicts qs = earlier ++ v :: later) {c : Claim} (hc : c ∈ v.2.blockers) :
    c ∈ l.claims ∨ ∃ w ∈ earlier,
      w.2.allowed = true ∧ c.resource ∈ w.1.resources ∧ c.hold = l.grant w.1 := by
  induction qs generalizing l earlier with
  | nil => simp [verdicts] at judged
  | cons q qs ih =>
    rw [verdicts] at judged
    cases earlier with
    | nil =>
      cases judged
      exact Or.inl (mem_claims.2 (mem_blockers.1 hc).2.1)
    | cons first earlier =>
      rw [List.cons_append, List.cons.injEq] at judged
      obtain ⟨rfl, judged⟩ := judged
      rcases ih judged with old | ⟨w, hw, allowed, named, granted⟩
      · rcases mem_claims_acquire old with old | granted
        · exact Or.inl old
        · exact Or.inr ⟨_, List.mem_cons_self .., granted⟩
      · refine Or.inr ⟨w, List.mem_cons_of_mem _ hw, allowed, named, ?_⟩
        rw [granted, grant, grant, settings_acquire]

theorem HeldBy.of_mem_verdicts {l : Ledger} {who : HolderId} {x : Resource} (h : l.HeldBy who x)
    {qs : List Request} {v : Request × Decision} (hv : v ∈ l.verdicts qs)
    (allowed : v.2.allowed = true) (named : x ∈ v.1.resources) :
    who = v.1.holder ∧ v.1.ignoreOwn = true := by
  induction qs generalizing l with
  | nil => cases hv
  | cons q qs ih =>
    rcases List.mem_cons.1 hv with rfl | hv
    · exact h.of_allowed allowed named
    · exact ih (h.acquire q) hv

/-- **The earlier request wins**: what was granted is granted again to its holder alone, who says to
ignore that. -/
theorem pairwise_verdicts (l : Ledger) (qs : List Request) :
    (l.verdicts qs).Pairwise fun v w => v.2.allowed = true → w.2.allowed = true →
      ∀ r ∈ v.1.resources, r ∈ w.1.resources → v.1.holder = w.1.holder ∧ w.1.ignoreOwn = true := by
  induction qs generalizing l with
  | nil => exact List.Pairwise.nil
  | cons q qs ih =>
    refine List.Pairwise.cons ?_ (ih _)
    intro w hw first second r named again
    exact (heldBy_of_allowed first named).of_mem_verdicts hw second again

/-! ## Requests that come together -/

/-- One request is made before another: at an earlier instant, or at the same one by a holder whose
name comes first. -/
def Precedes (p q : Request) : Prop := p.now < q.now ∨ (p.now = q.now ∧ p.holder < q.holder)

/-- When and by whom a request is made. -/
def occasion (q : Request) : Timestamp × HolderId := (q.now, q.holder)

theorem occasion_eq_of_before {p q : Request} (h : before p q = true) (k : before q p = true) :
    occasion p = occasion q := by
  rw [before_iff] at h k
  have same : p.now.toNat = q.now.toNat := by omega
  have first : p.holder ≤ q.holder := by
    rcases h with h | h
    · omega
    · exact h.2
  have second : q.holder ≤ p.holder := by
    rcases k with k | k
    · omega
    · exact k.2
  exact Prod.ext (Timestamp.toNat_inj.1 same) (Ident.le_antisymm first second)

theorem precedes_of_before {p q : Request} (h : before p q = true) (ne : occasion p ≠ occasion q) :
    Precedes p q := by
  rcases before_iff.1 h with earlier | ⟨same, first⟩
  · exact Or.inl (Timestamp.lt_iff.2 earlier)
  · have together : p.now = q.now := Timestamp.toNat_inj.1 same
    refine Or.inr ⟨together, ?_⟩
    by_contra last
    exact ne (Prod.ext together (Ident.le_antisymm first (Ident.not_lt.1 last)))

/-- Requests on different occasions have one order. -/
theorem mergeSort_eq_of_perm {ps qs : List Request} (distinct : (qs.map occasion).Nodup)
    (perm : ps.Perm qs) : ps.mergeSort before = qs.mergeSort before := by
  have sorted : (ps.mergeSort before).Perm (qs.mergeSort before) :=
    (List.mergeSort_perm ps _).trans (perm.trans (List.mergeSort_perm qs _).symm)
  refine List.Perm.eq_of_pairwise ?_ (pairwise_before ps) (pairwise_before qs) sorted
  intro p q hp hq h k
  have inp : p ∈ qs := perm.mem_iff.1 (List.mem_mergeSort.1 hp)
  have inq : q ∈ qs := List.mem_mergeSort.1 hq
  exact List.inj_on_of_nodup_map distinct inp inq (occasion_eq_of_before h k)

theorem pairwise_precedes {qs : List Request} (distinct : (qs.map occasion).Nodup) :
    (qs.mergeSort before).Pairwise Precedes := by
  have distinct : ((qs.mergeSort before).map occasion).Nodup :=
    ((List.mergeSort_perm qs before).map occasion).nodup_iff.2 distinct
  have both := (pairwise_before qs).and (List.pairwise_map.1 distinct)
  exact both.imp fun h => precedes_of_before h.1 h.2

/-- **Arbitration is fair.**  Requests on different occasions get the same answers and leave the
same ledger in whatever order they are handed in, namely as if they were made one by one in the
order of their instants and holders.  What two of them are both granted is granted to one holder,
who says in the later one to ignore that.  What stands in the way of any of them stood in the ledger
before, or was granted to one of them that precedes it. -/
theorem arbitrate_fair (l : Ledger) {qs : List Request}
    (distinct : (qs.map fun q => (q.now, q.holder)).Nodup) :
    (∀ ps, ps.Perm qs → l.arbitrate ps = l.arbitrate qs) ∧
    ∃ order, order.Perm qs ∧ order.Pairwise Precedes ∧
      l.arbitrate qs = (l.run (order.map Operation.acquire),
        (l.verdicts order).map fun v => (v.1.holder, v.2)) ∧
      ((l.verdicts order).Pairwise fun v w => v.2.allowed = true → w.2.allowed = true →
        ∀ r ∈ v.1.resources, r ∈ w.1.resources →
          v.1.holder = w.1.holder ∧ w.1.ignoreOwn = true) ∧
      ∀ earlier v later, l.verdicts order = earlier ++ v :: later → ∀ c ∈ v.2.blockers,
        c ∈ l.claims ∨ ∃ w ∈ earlier, w.2.allowed = true ∧ c.resource ∈ w.1.resources ∧
          c.hold = ⟨w.1.holder, w.1.now, l.settings.headway, none⟩ := by
  constructor
  · intro ps perm
    rw [arbitrate, arbitrate, mergeSort_eq_of_perm distinct perm]
  · refine ⟨qs.mergeSort before, List.mergeSort_perm qs before, pairwise_precedes distinct,
      acquireAll_eq l _, pairwise_verdicts l _, ?_⟩
    intro earlier v later judged c hc
    exact mem_claims_of_mem_blockers judged hc

/-- Two trains ask for one track at the same instant, the one that gets it asks once more later, and
in between another one asks for track that is held.  Handed in the other way round, they get the
same answers. -/
theorem arbitrate_fair_two_trains_at_once :
    let ask (who : String) (own : Bool) (now : UInt64) (keys : List String) : Request :=
      ⟨⟨who⟩, own, ⟨now⟩, keys.map fun key => ⟨.custom, key⟩⟩
    let l : Ledger := (empty {}).run [.acquire (ask "D" false 0 ["E3"])]
    let qs : List Request := [ask "C" false 0 ["E1"], ask "B" true 5 ["E2"],
      ask "B" false 0 ["E1", "E2"], ask "A" false 4 ["E3"]]
    (qs.map fun q => (q.now, q.holder)).Nodup ∧ l.arbitrate qs.reverse = l.arbitrate qs ∧
      (l.arbitrate qs).2.map (fun a => (a.1.text, a.2.allowed)) =
        [("B", true), ("C", false), ("A", false), ("B", true)] := by
  intro ask l qs
  have distinct : (qs.map fun q => (q.now, q.holder)).Nodup := by decide
  let order : List Request := [ask "B" false 0 ["E1", "E2"], ask "C" false 0 ["E1"],
    ask "A" false 4 ["E3"], ask "B" true 5 ["E2"]]
  have sorted : qs.mergeSort before = order := by
    have perm : order.Perm qs := by decide
    have pairwise : order.Pairwise fun p q => before p q = true := by decide
    rw [← mergeSort_eq_of_perm distinct perm, List.mergeSort_of_pairwise pairwise]
  refine ⟨distinct, (arbitrate_fair l distinct).1 qs.reverse qs.reverse_perm, ?_⟩
  rw [arbitrate, sorted]
  decide +kernel

end Ledger

end Signalbox
