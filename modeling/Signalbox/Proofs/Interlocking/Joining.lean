import Signalbox.Proofs.Interlocking.Forecast
import Signalbox.Proofs.Occurrences

/-!
# Joining decisions

A decision on several resources says what the decisions on each of them say together: it is allowed
if all of them are, it names the latest of their instants and shows the worst of their signals, and
what stands in its way is what stands in the way of any of them.  The signal of a request is
computed from all of its blockers at once, with a caution window that is cut off at the end of time;
it is the worst of the single signals because each signal is characterised by a property of every
single blocker.

* `Decision.joinAll`            : what several decisions say together;
* `Ledger.aspect_le_iff`        : a signal is as bad as the worst of its blockers makes it;
* `Ledger.blockers_in_order`    : blockers stand in the order in which their resources are named;
* `Ledger.decide_joins`         : the decision on a request joins the decisions on its resources.
-/

set_option autoImplicit false

namespace Signalbox

/-! ## Joining -/

namespace Aspect

variable {a b c : Aspect}

/-- The worse of two signals. -/
instance : Max Aspect := ⟨fun a b => if a ≤ b then b else a⟩

theorem max_le_iff : max a b ≤ c ↔ a ≤ c ∧ b ≤ c := by
  cases a <;> cases b <;> cases c <;> decide

theorem rank_injective (h : a.rank = b.rank) : a = b := by
  cases a <;> cases b <;> simp_all [rank]

theorem eq_of_le_iff (h : ∀ c, a ≤ c ↔ b ≤ c) : a = b := by
  have ab : a ≤ b := (h b).2 (Nat.le_refl _)
  have ba : b ≤ a := (h a).1 (Nat.le_refl _)
  exact rank_injective (Nat.le_antisymm ab ba)

end Aspect

theorem Timestamp.eq_of_le_iff {a b : Timestamp} (h : ∀ t, a ≤ t ↔ b ≤ t) : a = b := by
  have ab := le_iff.1 ((h b).2 (le_refl b))
  have ba := le_iff.1 ((h a).1 (le_refl a))
  exact toNat_inj.1 (Nat.le_antisymm ab ba)

theorem foldl_max_le_iff {α : Type} [LE α] [Max α]
    (max_le : ∀ {a b c : α}, max a b ≤ c ↔ a ≤ c ∧ b ≤ c) {as : List α} {a c : α} :
    as.foldl max a ≤ c ↔ a ≤ c ∧ ∀ b ∈ as, b ≤ c := by
  induction as generalizing a with
  | nil => simp
  | cons b as ih => rw [List.foldl_cons, ih, max_le, List.forall_mem_cons, and_assoc]

/-- What decisions of one instant say together. -/
def Decision.joinAll (now : Timestamp) (ds : List Decision) : Decision where
  allowed := ds.all Decision.allowed
  earliest := (ds.map Decision.earliest).foldl max now
  aspect := (ds.map Decision.aspect).foldl max .clear
  blockers := ds.flatMap Decision.blockers

/-- The same request, for other resources. -/
def Request.over (q : Request) (rs : List Resource) : Request := { q with resources := rs }

namespace Ledger

variable {l : Ledger} {q : Request} {r : Resource}

/-! ## One resource at a time -/

/-- The decisions on the resources of a request, each taken by itself, in the order in which the
resources are named first. -/
def parts (l : Ledger) (q : Request) : List Decision :=
  q.resources.eraseDups.map fun r => l.decide (q.over [r])

/-- What stands in the way of a request is what stands in the way of its parts. -/
theorem blockers_eq_flatMap (l : Ledger) (q : Request) :
    l.blockers q = (l.parts q).flatMap Decision.blockers := by
  rw [parts, List.flatMap_map, blockers, List.filterMap_eq_flatMap_toList]
  -- on a single resource both sides are its blocker, if it has one
  rfl

theorem aspect_le_iff {s : HeadwaySettings} {now : Timestamp} {cs : List Claim} {a : Aspect} :
    aspect s now cs ≤ a ↔ ∀ c ∈ cs, aspect s now [c] ≤ a := by
  cases a with
  | clear => simp [Aspect.le_clear_iff, aspect_eq_clear_iff, List.eq_nil_iff_forall_not_mem]
  | caution => simp [aspect_le_caution_iff]
  | stop => simp [Aspect.le_stop]

/-- **Blockers stand in the order in which their resources are named first**, each once. -/
theorem blockers_in_order (l : Ledger) (q : Request) :
    (l.blockers q).Pairwise fun c d =>
      q.resources.idxOf c.resource < q.resources.idxOf d.resource := by
  have named {r : Resource} {c : Claim} (h : l.blocker? q r = some c) : c.resource = r := by
    unfold blocker? at h
    split at h
    · split at h <;> cases h
      rfl
    · cases h
  refine (pairwise_idxOf_eraseDups q.resources).filterMap _ ?_
  intro r s earlier c hc d hd
  rwa [named hc, named hd]

theorem decide_eq_joinAll (l : Ledger) (q : Request) :
    l.decide q = Decision.joinAll q.now (l.parts q) := by
  have way := blockers_eq_flatMap l q
  have every {p : Claim → Prop} :
      (∀ c ∈ l.blockers q, p c) ↔ ∀ d ∈ l.parts q, ∀ c ∈ d.blockers, p c := by
    simp only [way, List.mem_flatMap]
    exact ⟨fun h d hd c hc => h c ⟨d, hd, hc⟩, fun h c ⟨d, hd, hc⟩ => h d hd c hc⟩
  have part {p : Decision → Prop} :
      (∀ d ∈ l.parts q, p d) ↔ ∀ r ∈ q.resources.eraseDups, p (l.decide (q.over [r])) := by
    simp only [parts, List.forall_mem_map]
  have allowed : (l.decide q).allowed = (l.parts q).all Decision.allowed := by
    rw [Bool.eq_iff_iff, allowed_iff_blockers, List.eq_nil_iff_forall_not_mem, List.all_eq_true,
      every (p := fun _ => False), part, part]
    simp only [allowed_iff_blockers, List.eq_nil_iff_forall_not_mem]
    rfl
  have latest : (l.decide q).earliest = ((l.parts q).map Decision.earliest).foldl max q.now := by
    refine Timestamp.eq_of_le_iff fun t => ?_
    show earliest q.now (l.blockers q) ≤ t ↔ _
    rw [earliest_le_iff, foldl_max_le_iff Timestamp.max_le_iff, List.forall_mem_map, every, part,
      part]
    refine and_congr_right fun begun => forall₂_congr fun r _ => ?_
    show _ ↔ earliest q.now (l.blockers (q.over [r])) ≤ t
    rw [earliest_le_iff, and_iff_right begun]
    rfl
  have worst : (l.decide q).aspect = ((l.parts q).map Decision.aspect).foldl max .clear := by
    refine Aspect.eq_of_le_iff fun a => ?_
    show aspect l.settings q.now (l.blockers q) ≤ a ↔ _
    rw [aspect_le_iff, foldl_max_le_iff Aspect.max_le_iff, List.forall_mem_map, every, part, part]
    rw [and_iff_right (by cases a <;> decide)]
    exact forall₂_congr fun r _ => aspect_le_iff.symm
  calc l.decide q
      = ⟨(l.decide q).allowed, (l.decide q).earliest, (l.decide q).aspect, l.blockers q⟩ := rfl
    _ = Decision.joinAll q.now (l.parts q) := by rw [allowed, latest, worst, way]; rfl

/-- Requests for the same resources, in whatever order and however often named, have the same claims
in their way. -/
theorem mem_blockers_over {rs : List Resource} (same : ∀ r, r ∈ rs ↔ r ∈ q.resources) {c : Claim} :
    c ∈ l.blockers (q.over rs) ↔ c ∈ l.blockers q := by
  rw [mem_blockers, mem_blockers]
  exact and_congr_left fun _ => same c.resource

/-- **A decision is the join of its parts.**  The decision on a request says what the decisions on
its resources say together, each resource taken once; the claims in its way stand in the order in
which their resources are named first, each once; and it is the same, but for the order of these
claims, for the same resources in another order or with other repetitions. -/
theorem decide_joins (l : Ledger) (q : Request) :
    l.decide q = Decision.joinAll q.now (l.parts q) ∧
    (l.decide q).blockers.Pairwise (fun c d =>
      q.resources.idxOf c.resource < q.resources.idxOf d.resource) ∧
    ∀ rs, (∀ r, r ∈ rs ↔ r ∈ q.resources) →
      (l.decide (q.over rs)).allowed = (l.decide q).allowed ∧
      (l.decide (q.over rs)).earliest = (l.decide q).earliest ∧
      (l.decide (q.over rs)).aspect = (l.decide q).aspect := by
  refine ⟨decide_eq_joinAll l q, blockers_in_order l q, fun rs same => ⟨?_, ?_, ?_⟩⟩
  · rw [Bool.eq_iff_iff, allowed_iff_blockers, allowed_iff_blockers,
      List.eq_nil_iff_forall_not_mem, List.eq_nil_iff_forall_not_mem]
    simp only [mem_blockers_over same]
  · refine Timestamp.eq_of_le_iff fun t => ?_
    show earliest q.now (l.blockers (q.over rs)) ≤ t ↔ earliest q.now (l.blockers q) ≤ t
    simp only [earliest_le_iff, mem_blockers_over same]
  · refine Aspect.eq_of_le_iff fun a => ?_
    show aspect l.settings q.now (l.blockers (q.over rs)) ≤ a ↔
      aspect l.settings q.now (l.blockers q) ≤ a
    rw [aspect_le_iff, aspect_le_iff]
    simp only [mem_blockers_over same]

/-- One train is on the track, another one has just left it.  A third one is stopped by the first of
them and cautioned by the second, so it is stopped, whatever the order in which it asks. -/
theorem decide_joins_behind_two_trains :
    let r (key : String) : Resource := ⟨.custom, key⟩
    let ask (who : String) (now : UInt64) (keys : List String) : Request :=
      ⟨⟨who⟩, false, ⟨now⟩, keys.map r⟩
    let l : Ledger := (empty {}).run [.acquire (ask "A" 0 ["E1"]), .acquire (ask "C" 0 ["E2"]),
      .release (r "E2") none ⟨500⟩]
    let q := ask "B" 1000 ["E2", "E3", "E1", "E2"]
    let part (key : String) : Decision := l.decide (q.over [r key])
    l.decide q = Decision.joinAll ⟨1000⟩ [part "E2", part "E3", part "E1"] ∧
      [part "E2", part "E3", part "E1"].map Decision.aspect = [.caution, .clear, .stop] ∧
      (∀ x, x ∈ [r "E1", r "E2", r "E3"] ↔ x ∈ q.resources) ∧
      (l.decide (q.over [r "E1", r "E2", r "E3"])).earliest = ⟨6000⟩ ∧
      (l.decide (q.over [r "E1", r "E2", r "E3"])).aspect = .stop := by
  intro r ask l q part
  have same (x : Resource) : x ∈ [r "E1", r "E2", r "E3"] ↔ x ∈ q.resources := by
    simp only [q, ask, List.map_cons, List.map_nil, List.mem_cons, List.not_mem_nil, or_false]
    tauto
  obtain ⟨joined, -, reordered⟩ := decide_joins l q
  obtain ⟨-, earliest, aspect⟩ := reordered [r "E1", r "E2", r "E3"] same
  refine ⟨joined, by decide +kernel, same, ?_, ?_⟩
  · rw [earliest]
    decide +kernel
  · rw [aspect]
    decide +kernel

end Ledger

end Signalbox
