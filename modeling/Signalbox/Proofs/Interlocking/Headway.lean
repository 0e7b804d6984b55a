import Mathlib.Data.List.Induction
import Signalbox.Proofs.Interlocking.Holds

/-!
# Headway

Over a whole history of a ledger, no resource is granted to one holder while another one holds it,
nor before a full headway has passed since any earlier release of it by another one.

The ledger keeps one hold for each resource, and later operations overwrite or delete what it knew
of earlier releases.  What is kept of a release (`Ledger.Remembers`) is that either its headway has
passed, or the hold that now stands on the resource is still of the same holder and, if it is
released, was released no earlier.

* `Ledger.Operation`       : what is done to a ledger;
* `Ledger.Chronological`   : a history in which time never runs back;
* `Ledger.remembers_run`   : every history remembers every release in it;
* `Ledger.headway_elapsed` : what is granted is held by nobody else, and a headway has passed since
  every release by somebody else.
-/

set_option autoImplicit false

namespace Signalbox

namespace Ledger

/-! ## Histories -/

/-- What is done to a ledger.  Each operation is done as a whole, so that whatever several holders
do at once is one after the other in the history. -/
inductive Operation where
  | acquire (q : Request)
  | arbitrate (qs : List Request)
  | releaseAll (who : HolderId) (now : Timestamp)
  | release (r : Resource) (expected : Option HolderId) (now : Timestamp)
  | purge (now : Timestamp)

namespace Operation

/-- The instants that an operation names. -/
def times : Operation → List Timestamp
  | acquire q => [q.now]
  | arbitrate qs => qs.map Request.now
  | releaseAll _ now => [now]
  | release _ _ now => [now]
  | purge now => [now]

/-- The ledger after an operation. -/
def perform (l : Ledger) : Operation → Ledger
  | acquire q => (l.acquire q).1
  | arbitrate qs => (l.arbitrate qs).1
  | releaseAll who now => (l.releaseAll who now).1
  | release r expected now => (l.release r expected now).1
  | purge now => (l.purge now).1

/-- The operation grants a request, which is judged on the ledger `before`: of simultaneous
requests each is judged after those that come before it. -/
inductive Grants (l : Ledger) : Operation → Ledger → Request → Prop
  | acquire {q : Request} (allowed : (l.acquire q).2.allowed = true) : Grants l (acquire q) l q
  | arbitrate {qs earlier later : List Request} {q : Request}
      (order : qs.mergeSort Ledger.before = earlier ++ q :: later)
      (allowed : ((l.acquireAll earlier).1.acquire q).2.allowed = true) :
      Grants l (arbitrate qs) (l.acquireAll earlier).1 q

/-- The operation releases a live hold of `who` on a resource at the instant `t`. -/
def Releases (l : Ledger) (op : Operation) (r : Resource) (who : HolderId) (t : Timestamp) : Prop :=
  ∃ h, l.holds[r]? = some h ∧ h.isLive = true ∧ h.holder = who ∧
    (op.perform l).holds[r]? = some (h.release t)

end Operation

/-- The ledger after some operations, one after the other. -/
def run (l : Ledger) (ops : List Operation) : Ledger := ops.foldl Operation.perform l

/-- No operation names an earlier instant than one before it. -/
def Chronological (ops : List Operation) : Prop :=
  ops.Pairwise fun a b => ∀ t ∈ a.times, ∀ u ∈ b.times, t ≤ u

theorem run_append (l : Ledger) (ops more : List Operation) :
    l.run (ops ++ more) = (l.run ops).run more := List.foldl_append

theorem run_snoc (l : Ledger) (ops : List Operation) (op : Operation) :
    l.run (ops ++ [op]) = op.perform (l.run ops) := run_append l ops [op]

theorem settings_perform (l : Ledger) (op : Operation) :
    (op.perform l).settings = l.settings := by
  cases op with
  | acquire q => exact settings_acquire l q
  | arbitrate qs => exact settings_acquireAll l _
  | releaseAll who now => rfl
  | release r expected now => exact settings_release l r expected now
  | purge now => rfl

theorem settings_run (l : Ledger) (ops : List Operation) : (l.run ops).settings = l.settings := by
  induction ops generalizing l with
  | nil => rfl
  | cons op ops ih => exact (ih (op.perform l)).trans (settings_perform l op)

/-- Requests are judged by time, and at one time by holder. -/
theorem before_iff {p q : Request} :
    before p q = true ↔
      p.now.toNat < q.now.toNat ∨ (p.now.toNat = q.now.toNat ∧ p.holder ≤ q.holder) := by
  unfold before
  split
  · rename_i h
    simp [h]
  · rename_i h
    have h' : p.now.toNat ≠ q.now.toNat := fun he => h (Timestamp.toNat_inj.1 he)
    simp [h', Timestamp.lt_iff]

theorem before_trans {p q s : Request} (h : before p q = true) (k : before q s = true) :
    before p s = true := by
  rw [before_iff] at h k ⊢
  rcases h with h | ⟨h, hh⟩ <;> rcases k with k | ⟨k, hk⟩
  · exact Or.inl (by omega)
  · exact Or.inl (by omega)
  · exact Or.inl (by omega)
  · exact Or.inr ⟨by omega, String.le_trans hh hk⟩

theorem before_total (p q : Request) : (before p q || before q p) = true := by
  rw [Bool.or_eq_true, before_iff, before_iff]
  rcases Nat.lt_trichotomy p.now.toNat q.now.toNat with h | h | h
  · exact Or.inl (Or.inl h)
  · rcases Ident.le_total p.holder q.holder with k | k
    · exact Or.inl (Or.inr ⟨h, k⟩)
    · exact Or.inr (Or.inr ⟨h.symm, k⟩)
  · exact Or.inr (Or.inl h)

theorem pairwise_before (qs : List Request) :
    (qs.mergeSort before).Pairwise fun p q => before p q = true :=
  @List.pairwise_mergeSort _ before (fun p q s => @before_trans p q s) before_total qs

theorem sorted_times (qs : List Request) :
    (qs.mergeSort before).Pairwise fun p q => p.now ≤ q.now := by
  apply (pairwise_before qs).imp
  intro p q h
  rw [Timestamp.le_iff]
  rcases before_iff.1 h with h | h
  · omega
  · omega

/-! ## What is kept of a release -/

/-- Every hold was recorded with the headway of the settings. -/
def Uniform (l : Ledger) : Prop :=
  ∀ (r : Resource) (h : Hold), l.holds[r]? = some h → h.headway = l.settings.headway

/-- What a ledger keeps at the instant `now` of the release of a resource by `who` at the instant
`t`: its headway has passed, or the hold on the resource is of `who` still and, if it is released,
was released at `t` or later. -/
def Remembers (l : Ledger) (now : Timestamp) (r : Resource) (who : HolderId) (t : Timestamp) :
    Prop :=
  t ≤ now ∧ (t.plus l.settings.headway ≤ now ∨
    ∃ h, l.holds[r]? = some h ∧ h.holder = who ∧ ∀ u, h.releasedAt = some u → t ≤ u)

theorem uniform_empty (c : HeadwaySettings) : Uniform (empty c) := by
  intro r h hr
  simp [empty] at hr

theorem Uniform.acquire {l : Ledger} (hu : Uniform l) (q : Request) : Uniform (l.acquire q).1 := by
  intro r h hr
  rw [holds_acquire] at hr
  rw [settings_acquire]
  split at hr
  · cases hr
    rfl
  · exact hu r h hr

theorem Uniform.acquireAll {l : Ledger} (hu : Uniform l) (qs : List Request) :
    Uniform (l.acquireAll qs).1 := by
  induction qs generalizing l with
  | nil => exact hu
  | cons q qs ih => exact ih (hu.acquire q)

/-- Whatever changes a hold by releasing it at most leaves a uniform ledger uniform. -/
theorem Uniform.of_map {l m : Ledger} (hu : Uniform l) (hs : m.settings = l.settings)
    (f : Resource → Hold → Hold) (hf : ∀ r h, (f r h).headway = h.headway)
    (hm : ∀ r, m.holds[r]? = (l.holds[r]?).map (f r)) : Uniform m := by
  intro r h hr
  rw [hm, Option.map_eq_some_iff] at hr
  obtain ⟨k, hk, rfl⟩ := hr
  rw [hf, hs]
  exact hu r k hk

theorem Uniform.perform {l : Ledger} (hu : Uniform l) (op : Operation) :
    Uniform (op.perform l) := by
  cases op with
  | acquire q => exact hu.acquire q
  | arbitrate qs => exact hu.acquireAll _
  | releaseAll who now =>
    refine hu.of_map rfl (fun _ h => if isHeldBy who h then h.release now else h) ?_
      (holds_releaseAll l who now)
    intro r h
    split <;> rfl
  | release s expected now =>
    refine hu.of_map (settings_release l s expected now)
      (fun r h => if r = s ∧ isReleasable expected h = true then h.release now else h) ?_
      (holds_release l s expected now)
    intro r h
    split <;> rfl
  | purge now =>
    intro r h hr
    have hr' : (l.purge now).1.holds[r]? = some h := hr
    rw [holds_purge, Option.filter_eq_some_iff] at hr'
    exact hu r h hr'.1

theorem Uniform.run {l : Ledger} (hu : Uniform l) (ops : List Operation) : Uniform (l.run ops) := by
  induction ops generalizing l with
  | nil => exact hu
  | cons op ops ih => exact ih (hu.perform op)

namespace Remembers

variable {l : Ledger} {now : Timestamp} {r : Resource} {who : HolderId} {t : Timestamp}

theorem mono (h : Remembers l now r who t) {later : Timestamp} (hl : now ≤ later) :
    Remembers l later r who t := by
  obtain ⟨ht, hk⟩ := h
  refine ⟨Timestamp.le_trans ht hl, ?_⟩
  rcases hk with hk | hk
  · exact Or.inl (Timestamp.le_trans hk hl)
  · exact Or.inr hk

/-- Somebody else only gets the resource once the headway has passed. -/
theorem elapsed (h : Remembers l now r who t) (hu : Uniform l) {q : Request} (hq : q.now = now)
    (allowed : (l.decide q).allowed = true) (hr : r ∈ q.resources) (hne : who ≠ q.holder) :
    t.plus l.settings.headway ≤ now := by
  obtain ⟨-, hk | ⟨k, hk, hw, hrel⟩⟩ := h
  · exact hk
  have hb : blocks k q = false := decide_allowed_iff.1 allowed r hr k hk
  cases hl : k.releasedAt with
  | none =>
    have hs := (blocks_of_isLive (Hold.isLive_iff.2 hl) q).1 hb
    exact absurd (hw.symm.trans hs.1) hne
  | some u =>
    rcases (blocks_of_released hl q).1 hb with hs | hs
    · exact absurd (hw.symm.trans hs) hne
    · rw [hu r k hk, hq] at hs
      exact Timestamp.le_trans (Timestamp.plus_le_plus (hrel u hl) _) hs

theorem acquire {q : Request} (h : Remembers l q.now r who t) (hu : Uniform l) :
    Remembers (l.acquire q).1 q.now r who t := by
  refine ⟨h.1, ?_⟩
  rw [settings_acquire, holds_acquire]
  by_cases hg : (l.decide q).allowed = true ∧ r ∈ q.resources
  · rw [if_pos hg]
    by_cases hne : who = q.holder
    · exact Or.inr ⟨_, rfl, hne.symm, fun u hu => by cases hu⟩
    · exact Or.inl (h.elapsed hu rfl hg.1 hg.2 hne)
  · rw [if_neg hg]
    exact h.2

theorem acquireAll {qs : List Request} (hu : Uniform l)
    (sorted : qs.Pairwise fun p q => p.now ≤ q.now)
    (h : ∀ q ∈ qs, Remembers l q.now r who t) (hn : Remembers l now r who t)
    (hle : ∀ q ∈ qs, q.now ≤ now) : Remembers (l.acquireAll qs).1 now r who t := by
  induction qs generalizing l with
  | nil => exact hn
  | cons q qs ih =>
    rw [List.pairwise_cons] at sorted
    have hq : Remembers (l.acquire q).1 q.now r who t := (h q (by simp)).acquire hu
    rw [acquireAll_cons]
    refine ih (hu.acquire q) sorted.2 ?_ ?_ ?_
    · intro p hp
      exact hq.mono (sorted.1 p hp)
    · exact hq.mono (hle q (by simp))
    · intro p hp
      exact hle p (by simp [hp])

/-- A release of holds at `now` keeps what is remembered of earlier releases. -/
theorem of_map {m : Ledger} (h : Remembers l now r who t) (hs : m.settings = l.settings)
    (f : Hold → Hold) (hf : ∀ k, f k = k ∨ f k = k.release now)
    (hm : m.holds[r]? = (l.holds[r]?).map f) : Remembers m now r who t := by
  obtain ⟨ht, hk⟩ := h
  refine ⟨ht, ?_⟩
  rw [hs]
  rcases hk with hk | ⟨k, hk, hw, hrel⟩
  · exact Or.inl hk
  refine Or.inr ⟨f k, by rw [hm, hk, Option.map_some], ?_⟩
  rcases hf k with hfk | hfk
  · rw [hfk]
    exact ⟨hw, hrel⟩
  · rw [hfk]
    refine ⟨hw, fun u hu => ?_⟩
    cases hu
    exact ht

theorem purge (h : Remembers l now r who t) (hu : Uniform l) :
    Remembers (l.purge now).1 now r who t := by
  obtain ⟨ht, hk⟩ := h
  refine ⟨ht, ?_⟩
  rcases hk with hk | ⟨k, hk, hw, hrel⟩
  · exact Or.inl hk
  rw [holds_purge, hk]
  by_cases hc : isCurrent now k = true
  · exact Or.inr ⟨k, by simp [hc], hw, hrel⟩
  · -- the hold is forgotten, which says that its headway has passed
    left
    obtain ⟨u, released, passed⟩ := isCurrent_eq_false_iff.1 (Bool.eq_false_iff.2 hc)
    rw [hu r k hk] at passed
    exact Timestamp.le_trans (Timestamp.plus_le_plus (hrel u released) _) passed

/-- **One operation keeps what is remembered**, at any instant that is not before the instants it
names. -/
theorem perform {op : Operation} (hu : Uniform l)
    (h : ∀ u ∈ op.times, Remembers l u r who t) (hn : Remembers l now r who t)
    (hle : ∀ u ∈ op.times, u ≤ now) : Remembers (op.perform l) now r who t := by
  cases op with
  | acquire q =>
    have hq : Remembers l q.now r who t := h q.now (by simp [Operation.times])
    exact (hq.acquire hu).mono (hle q.now (by simp [Operation.times]))
  | arbitrate qs =>
    refine acquireAll hu (sorted_times qs) ?_ hn ?_
    · intro q hq
      exact h q.now (List.mem_map_of_mem (List.mem_mergeSort.1 hq))
    · intro q hq
      exact hle q.now (List.mem_map_of_mem (List.mem_mergeSort.1 hq))
  | releaseAll w u =>
    have hm : u ∈ (Operation.releaseAll w u).times := by simp [Operation.times]
    refine ((h u hm).of_map rfl (fun k => if isHeldBy w k then k.release u else k) ?_
      (m := (l.releaseAll w u).1) (holds_releaseAll l w u r)).mono (hle u hm)
    intro k
    split
    · exact Or.inr rfl
    · exact Or.inl rfl
  | release s expected u =>
    have hm : u ∈ (Operation.release s expected u).times := by simp [Operation.times]
    refine ((h u hm).of_map (settings_release l s expected u)
      (fun k => if r = s ∧ isReleasable expected k = true then k.release u else k) ?_
      (holds_release l s expected u r)).mono (hle u hm)
    intro k
    split
    · exact Or.inr rfl
    · exact Or.inl rfl
  | purge u =>
    have hm : u ∈ (Operation.purge u).times := by simp [Operation.times]
    exact ((h u hm).purge hu).mono (hle u hm)

end Remembers

/-! ## Whole histories -/

theorem remembers_of_releases {l : Ledger} {op : Operation} {r : Resource} {who : HolderId}
    {t now : Timestamp} (h : op.Releases l r who t) (hle : t ≤ now) :
    Remembers (op.perform l) now r who t := by
  obtain ⟨k, -, -, hw, hp⟩ := h
  refine ⟨hle, Or.inr ⟨_, hp, hw, fun u hu => ?_⟩⟩
  cases hu
  exact Timestamp.le_refl t

theorem mem_times_of_releases {l : Ledger} {op : Operation} {r : Resource} {who : HolderId}
    {t : Timestamp} (h : op.Releases l r who t) : t ∈ op.times := by
  obtain ⟨k, hk, hl, -, hp⟩ := h
  have requests (qs : List Request) :
      (l.acquireAll qs).1.holds[r]? ≠ some (k.release t) := by
    obtain ⟨k', hk', hl', -⟩ := HeldBy.acquireAll ⟨k, hk, hl, rfl⟩ qs
    rw [hk']
    rintro ⟨⟩
    rw [Hold.isLive_release] at hl'
    cases hl'
  have kept : k ≠ k.release t := fun he => by rw [he, Hold.isLive_release] at hl; cases hl
  cases op with
  | acquire q => exact absurd hp (requests [q])
  | arbitrate qs => exact absurd hp (requests _)
  | releaseAll w u =>
    have hp' := (holds_releaseAll l w u r).symm.trans hp
    rw [hk, Option.map_some, Option.some.injEq] at hp'
    split at hp'
    · simp_all [Operation.times, Hold.release]
    · exact absurd hp' kept
  | release s expected u =>
    have hp' := (holds_release l s expected u r).symm.trans hp
    rw [hk, Option.map_some, Option.some.injEq] at hp'
    split at hp'
    · simp_all [Operation.times, Hold.release]
    · exact absurd hp' kept
  | purge u =>
    have hp' := (holds_purge l u r).symm.trans hp
    rw [hk, Option.filter_eq_some_iff, Option.some.injEq] at hp'
    exact absurd hp'.1 kept

/-- **A history remembers every release in it**, at every instant that is not before it. -/
theorem remembers_run {l : Ledger} (hu : Uniform l) {earlier later : List Operation}
    {op : Operation} {r : Resource} {who : HolderId} {t : Timestamp}
    (chronological : Chronological (earlier ++ op :: later))
    (released : op.Releases (l.run earlier) r who t) {now : Timestamp}
    (hle : ∀ o ∈ earlier ++ op :: later, ∀ u ∈ o.times, u ≤ now) :
    Remembers (l.run (earlier ++ op :: later)) now r who t := by
  -- induction on the operations after the release, the last one apart
  induction later using List.reverseRecOn generalizing now with
  | nil =>
    rw [run_snoc]
    exact remembers_of_releases released
      (hle op (by simp) t (mem_times_of_releases released))
  | append_singleton later last ih =>
    have split : earlier ++ op :: (later ++ [last]) = (earlier ++ op :: later) ++ [last] := by simp
    rw [split] at chronological hle ⊢
    rw [run_snoc]
    obtain ⟨hc, -, hlast⟩ := List.pairwise_append.1 chronological
    refine Remembers.perform (hu.run _) ?_ ?_ ?_
    · intro u hul
      exact ih hc fun o ho v hv => hlast o ho last (by simp) v hv u hul
    · exact ih hc fun o ho => hle o (List.mem_append_left _ ho)
    · exact hle last (by simp)

/-- Of a granted request: it is allowed on the ledger that it is judged on, at an instant that the
operation names, and that ledger keeps what is remembered. -/
theorem judged_of_grants {l now : Ledger} {op : Operation} {q : Request} (hu : Uniform l)
    (granted : op.Grants l now q) :
    (now.decide q).allowed = true ∧ q.now ∈ op.times ∧ Uniform now ∧ now.settings = l.settings ∧
      ∀ {r who t}, (∀ u ∈ op.times, Remembers l u r who t) → Remembers now q.now r who t := by
  cases granted with
  | acquire allowed =>
    have hm : q.now ∈ (Operation.acquire q).times := by simp [Operation.times]
    exact ⟨allowed, hm, hu, rfl, fun h => h q.now hm⟩
  | @arbitrate qs earlier later _ order allowed =>
    have hm (p : Request) (hp : p ∈ earlier ++ q :: later) :
        p.now ∈ (Operation.arbitrate qs).times := by
      rw [← order, List.mem_mergeSort] at hp
      exact List.mem_map_of_mem hp
    have sorted := sorted_times qs
    rw [order] at sorted
    obtain ⟨hs, -, hle⟩ := List.pairwise_append.1 sorted
    refine ⟨allowed, hm q (by simp), hu.acquireAll earlier, settings_acquireAll l earlier, ?_⟩
    intro r who t h
    refine Remembers.acquireAll hu hs ?_ ?_ ?_
    · intro p hp
      exact h p.now (hm p (by simp [hp]))
    · exact h q.now (hm q (by simp))
    · intro p hp
      exact hle p hp q (by simp)

/-- **Headway over whole histories.**  Whenever a request for a resource is granted, nobody else
holds the resource, and a headway has passed since every earlier release of it by somebody else,
unless the clock has come to its end. -/
theorem headway_elapsed (settings : HeadwaySettings) {ops : List Operation} {op : Operation}
    (chronological : Chronological (ops ++ [op])) {now : Ledger} {q : Request}
    (granted : op.Grants ((empty settings).run ops) now q) {r : Resource} (hr : r ∈ q.resources) :
    (∀ h, now.holds[r]? = some h → h.isLive = true → h.holder = q.holder) ∧
      ∀ earlier o later who t, ops = earlier ++ o :: later →
        o.Releases ((empty settings).run earlier) r who t → who ≠ q.holder →
          min (t.toNat + settings.headway.toNat) maxWord ≤ q.now.toNat := by
  have hu : Uniform (empty settings) := uniform_empty settings
  obtain ⟨allowed, hq, hun, hs, keep⟩ := judged_of_grants (hu.run ops) granted
  constructor
  · intro h hh hl
    exact ((blocks_of_isLive hl q).1 (decide_allowed_iff.1 allowed r hr h hh)).1
  · rintro earlier o later who t rfl released hne
    obtain ⟨hc, -, hlast⟩ := List.pairwise_append.1 chronological
    have kept : Remembers now q.now r who t := keep fun u hul =>
      remembers_run hu hc released fun o' ho' v hv => hlast o' ho' op (by simp) v hv u hul
    have passed := kept.elapsed hun rfl allowed hr hne
    rw [hs, settings_run, Timestamp.le_iff, Timestamp.toNat_plus] at passed
    exact passed

/-- Track that a train released twice goes to another train a headway after the second release,
also when both releases were followed by other operations. -/
theorem headway_elapsed_after_second_release :
    let r : Resource := ⟨.custom, "E1"⟩
    let ask (who : String) (now : UInt64) : Request := ⟨⟨who⟩, false, ⟨now⟩, [r]⟩
    let earlier : List Operation :=
      [.acquire (ask "A" 0), .releaseAll ⟨"A"⟩ ⟨1000⟩, .acquire (ask "A" 2000)]
    let second : Operation := .release r none ⟨3000⟩
    let later : List Operation := [.acquire (ask "B" 7999), .purge ⟨7999⟩]
    let last : Operation := .arbitrate [ask "C" 8001, ask "B" 8000]
    Chronological (earlier ++ second :: later ++ [last]) ∧
      (∃ now, last.Grants ((empty {}).run (earlier ++ second :: later)) now (ask "B" 8000)) ∧
      second.Releases ((empty {}).run earlier) r ⟨"A"⟩ ⟨3000⟩ ∧
      min (3000 + 5000) maxWord ≤ 8000 := by
  intro r ask earlier second later last
  have chronological : Chronological (earlier ++ second :: later ++ [last]) := by
    show List.Pairwise _ _
    decide
  have order : [ask "C" 8001, ask "B" 8000].mergeSort before =
      [] ++ ask "B" 8000 :: [ask "C" 8001] := by
    have late : before (ask "C" 8001) (ask "B" 8000) = false := by decide
    simp [List.mergeSort, List.MergeSort.Internal.splitInTwo, late]
  have granted : last.Grants ((empty {}).run (earlier ++ second :: later)) _ (ask "B" 8000) :=
    .arbitrate order (by decide +kernel)
  have released : second.Releases ((empty {}).run earlier) r ⟨"A"⟩ ⟨3000⟩ :=
    ⟨⟨⟨"A"⟩, ⟨2000⟩, 5000, none⟩, by decide, rfl, rfl, by decide⟩
  have elapsed := (headway_elapsed {} chronological granted (r := r) (by decide)).2
    earlier second later ⟨"A"⟩ ⟨3000⟩ rfl released (by decide)
  exact ⟨chronological, ⟨_, granted⟩, released, elapsed⟩

end Ledger

end Signalbox
