import Signalbox.Proofs.Lookup
import Signalbox.Proofs.Track.Walk
import Signalbox.Territory.Links

/-!
# One unit of taking territory

What a unit of work does to the owners, to the waiting cells and to the contacts.  The records of
junctions that are kept on the side touch none of these.

* `Territory.advance_cases` : a unit drops a waiting cell that is owned, or settles it;
* `Territory.queue_settle`  : a settled cell lets its unowned neighbours wait, behind all others;
* `Territory.least_settle`  : the contacts made while a cell is settled.
-/

set_option autoImplicit false

namespace Signalbox

/-! ## Least lengths -/

/-- `best` is the least number with a property, and nothing if no number has it. -/
def Least (P : Nat → Prop) (best : Option Nat) : Prop :=
  match best with
  | none => ∀ n, ¬ P n
  | some m => P m ∧ ∀ n, P n → m ≤ n

namespace Least

variable {P Q : Nat → Prop} {best : Option Nat} {m n : Nat}

theorem congr (h : Least P best) (hPQ : ∀ n, P n ↔ Q n) : Least Q best := by
  have : P = Q := funext fun n => propext (hPQ n)
  rw [← this]
  exact h

theorem isSome_iff (h : Least P best) : best.isSome = true ↔ ∃ n, P n := by
  cases best with
  | none => exact ⟨nofun, fun ⟨n, hn⟩ => absurd hn (h n)⟩
  | some m => exact ⟨fun _ => ⟨m, h.1⟩, fun _ => rfl⟩

theorem eq_some_iff (h : Least P best) : best = some m ↔ P m ∧ ∀ n, P n → m ≤ n := by
  constructor
  · rintro rfl
    exact h
  · rintro ⟨hm, hle⟩
    cases best with
    | none => exact absurd hm (h m)
    | some k => rw [Nat.le_antisymm (h.2 m hm) (hle k h.1)]

theorem offer (h : Least P best) (n : Nat) :
    Least (fun k => P k ∨ k = n) (some (best.elim n fun l => min l n)) := by
  cases best with
  | none =>
    refine ⟨Or.inr rfl, ?_⟩
    rintro k (hk | rfl)
    · exact absurd hk (h k)
    · exact Nat.le_refl _
  | some l =>
    refine ⟨?_, ?_⟩
    · show P (min l n) ∨ min l n = n
      rcases Nat.le_total l n with hl | hl
      · exact Or.inl (by rw [Nat.min_eq_left hl]; exact h.1)
      · exact Or.inr (Nat.min_eq_right hl)
    · rintro k (hk | rfl)
      · exact Nat.le_trans (Nat.min_le_left l n) (h.2 k hk)
      · exact Nat.min_le_right l k

end Least

/-- The same origin on its way over one more cell. -/
def Reach.next (r : Reach) (c : Cell) : Reach := ⟨r.origin, c :: r.trail⟩

@[simp] theorem Reach.origin_next (r : Reach) (c : Cell) : (r.next c).origin = r.origin := rfl

@[simp] theorem Reach.distance_next (r : Reach) (c : Cell) :
    (r.next c).distance = r.distance + 1 := rfl

namespace Territory

variable {s : Territory} {c d : Cell} {r q : Reach}

/-! ## Contacts -/

theorem getElem?_connect (s : Territory) (x y : Origin) (n : Nat) (k : Origin.Pair) :
    (s.connect x y n).contacts[k]? =
      if Origin.Pair.of x y = k then some (s.contacts[k]?.elim n fun l => min l n)
      else s.contacts[k]? := by
  unfold connect
  simp only [lookup_insert]
  by_cases h : Origin.Pair.of x y = k
  · rw [if_pos h, if_pos h, h]
    cases s.contacts[k]? <;> rfl
  · rw [if_neg h, if_neg h]

theorem least_connect {P : Nat → Prop} {k : Origin.Pair} (h : Least P s.contacts[k]?)
    (x y : Origin) (n : Nat) :
    Least (fun m => P m ∨ (k = Origin.Pair.of x y ∧ m = n)) (s.connect x y n).contacts[k]? := by
  rw [getElem?_connect]
  by_cases hk : Origin.Pair.of x y = k
  · rw [if_pos hk]
    apply (h.offer n).congr
    intro m
    simp [hk]
  · rw [if_neg hk]
    apply h.congr
    intro m
    simp [Ne.symm hk]

/-! ## Records kept on the side -/

@[simp] theorem origins_sight (s : Territory) (c : Cell) (o : Origin) :
    (s.sight c o).origins = s.origins := by
  unfold sight
  split <;> rfl

@[simp] theorem contacts_sight (s : Territory) (c : Cell) (o : Origin) :
    (s.sight c o).contacts = s.contacts := by
  unfold sight
  split <;> rfl

/-- Tracing back touches neither the origins nor the contacts. -/
theorem traceBack_frame (s : Territory) (o : Origin) (arm : Cell) (trail : List Cell) :
    (s.traceBack o arm trail).origins = s.origins ∧
      (s.traceBack o arm trail).contacts = s.contacts := by
  induction trail generalizing s arm with
  | nil => exact ⟨rfl, rfl⟩
  | cons c trail ih =>
    unfold traceBack
    simp only
    split
    · split
      · exact ⟨rfl, rfl⟩
      · exact ih _ c
    · exact ih s c

@[simp] theorem origins_traceBack (s : Territory) (o : Origin) (arm : Cell) (trail : List Cell) :
    (s.traceBack o arm trail).origins = s.origins := (traceBack_frame s o arm trail).1

@[simp] theorem contacts_traceBack (s : Territory) (o : Origin) (arm : Cell) (trail : List Cell) :
    (s.traceBack o arm trail).contacts = s.contacts := (traceBack_frame s o arm trail).2

theorem origins_meet (s : Territory) (c : Cell) (r : Reach) (d : Cell) (q : Reach) :
    (s.meet c r d q).origins = s.origins := by
  simp only [meet, touch, origins_traceBack, origins_sight]
  rfl

theorem contacts_meet (s : Territory) (c : Cell) (r : Reach) (d : Cell) (q : Reach) :
    (s.meet c r d q).contacts =
      (s.connect r.origin q.origin (r.distance + 1 + q.distance)).contacts := by
  simp only [meet, touch, contacts_traceBack, contacts_sight]

/-! ## Handling neighbours -/

/-- The contact that a cell reached by `r` makes with the cell `d` if another origin owns it. -/
def Meets (owners : Std.ExtTreeMap Cell Reach) (r : Reach) (d : Cell) (k : Origin.Pair)
    (n : Nat) : Prop :=
  ∃ q, owners[d]? = some q ∧ q.origin ≠ r.origin ∧ k = .of r.origin q.origin ∧
    n = r.distance + 1 + q.distance

theorem ground_approach (c : Cell) (r : Reach) (s : Territory) (d : Cell) :
    (approach c r s d).track = s.track ∧ (approach c r s d).origins = s.origins ∧
      (approach c r s d).owners = s.owners := by
  unfold approach
  split
  · split
    · exact ⟨rfl, rfl, rfl⟩
    · rename_i q _ _
      have h := SameGround.meet s c r d q
      exact ⟨h.track, origins_meet s c r d q, h.owners⟩
  · exact ⟨rfl, rfl, rfl⟩

theorem queue_approach (c : Cell) (r : Reach) (s : Territory) (d : Cell) :
    (approach c r s d).queue.toList =
      s.queue.toList ++ ([d].filter fun d => decide (d ∉ s.owners)).map fun d => (d, r.next c) := by
  cases ho : s.owners[d]? with
  | none =>
    have hd : d ∉ s.owners := by simp [mem_iff_lookup, ho]
    simp [approach, hd, enqueue, Reach.next]
  | some q =>
    have hd : d ∈ s.owners := mem_iff_lookup.2 ⟨q, ho⟩
    have hq : (approach c r s d).queue = s.queue := by
      simp only [approach, ho]
      split
      · rfl
      · exact (SameGround.meet s c r d q).queue
    simp [hq, hd]

theorem least_approach {P : Nat → Prop} {k : Origin.Pair} (h : Least P s.contacts[k]?) (c : Cell)
    (r : Reach) (d : Cell) :
    Least (fun n => P n ∨ Meets s.owners r d k n) (approach c r s d).contacts[k]? := by
  unfold approach
  cases ho : s.owners[d]? with
  | none =>
    apply h.congr
    intro n
    simp [Meets, ho]
  | some q =>
    simp only
    by_cases hq : q.origin = r.origin
    · rw [if_pos hq]
      apply h.congr
      intro n
      simp [Meets, ho, hq]
    · rw [if_neg hq, contacts_meet]
      apply (least_connect h _ _ _).congr
      intro n
      simp [Meets, ho, hq]

theorem ground_foldl_approach (c : Cell) (r : Reach) (ds : List Cell) (s : Territory) :
    (ds.foldl (approach c r) s).track = s.track ∧
      (ds.foldl (approach c r) s).origins = s.origins ∧
      (ds.foldl (approach c r) s).owners = s.owners := by
  induction ds generalizing s with
  | nil => exact ⟨rfl, rfl, rfl⟩
  | cons d ds ih =>
    obtain ⟨ht, ho, hw⟩ := ground_approach c r s d
    obtain ⟨kt, ko, kw⟩ := ih (approach c r s d)
    exact ⟨kt.trans ht, ko.trans ho, kw.trans hw⟩

theorem queue_foldl_approach (c : Cell) (r : Reach) (ds : List Cell) (s : Territory) :
    (ds.foldl (approach c r) s).queue.toList =
      s.queue.toList ++ (ds.filter fun d => decide (d ∉ s.owners)).map fun d => (d, r.next c) := by
  induction ds generalizing s with
  | nil => simp
  | cons d ds ih =>
    rw [List.foldl_cons, ih, (ground_approach c r s d).2.2, queue_approach, List.append_assoc,
      ← List.map_append, ← List.filter_append, List.singleton_append]

theorem least_foldl_approach {P : Nat → Prop} {k : Origin.Pair} (c : Cell) (r : Reach)
    (ds : List Cell) (h : Least P s.contacts[k]?) :
    Least (fun n => P n ∨ ∃ d ∈ ds, Meets s.owners r d k n)
      (ds.foldl (approach c r) s).contacts[k]? := by
  induction ds generalizing s P with
  | nil => exact h.congr fun n => by simp
  | cons d ds ih =>
    apply (ih (least_approach h c r d)).congr
    intro n
    rw [(ground_approach c r s d).2.2]
    simp only [List.mem_cons, exists_eq_or_imp, or_assoc]

/-! ## Settling a cell -/

@[simp] theorem track_settle (s : Territory) (c : Cell) (r : Reach) :
    (s.settle c r).track = s.track := (settle_ground s c r).1

@[simp] theorem owners_settle (s : Territory) (c : Cell) (r : Reach) :
    (s.settle c r).owners = s.owners.insert c r := (settle_ground s c r).2.1

@[simp] theorem origins_settle (s : Territory) (c : Cell) (r : Reach) :
    (s.settle c r).origins = s.origins := by
  rw [settle, (ground_foldl_approach c r _ _).2.1, origins_sight]

theorem queue_settle (s : Territory) (c : Cell) (r : Reach) :
    (s.settle c r).queue.toList = s.queue.toList ++
      ((s.track.neighbors c).filter fun d => decide (d ∉ s.owners.insert c r)).map
        fun d => (d, r.next c) := by
  have h := SameGround.sight { s with owners := s.owners.insert c r } c r.origin
  rw [settle, queue_foldl_approach, h.queue, h.owners]

theorem mem_queue_settle {e : Cell × Reach} :
    e ∈ (s.settle c r).queue.toList ↔ e ∈ s.queue.toList ∨
      (e.1 ∈ s.track.neighbors c ∧ e.1 ∉ s.owners.insert c r ∧ e.2 = r.next c) := by
  rw [queue_settle, List.mem_append, List.mem_map]
  refine or_congr_right ⟨?_, ?_⟩
  · rintro ⟨d, hd, rfl⟩
    rw [List.mem_filter, decide_eq_true_eq] at hd
    exact ⟨hd.1, hd.2, rfl⟩
  · rintro ⟨hn, ho, hr⟩
    exact ⟨e.1, List.mem_filter.2 ⟨hn, decide_eq_true ho⟩, by rw [← hr]⟩

/-- A settled cell makes contact with all its neighbours that others own. -/
theorem least_settle {P : Nat → Prop} {k : Origin.Pair} (h : Least P s.contacts[k]?) (c : Cell)
    (r : Reach) :
    Least (fun n => P n ∨ ∃ d ∈ s.track.neighbors c, Meets (s.owners.insert c r) r d k n)
      (s.settle c r).contacts[k]? := by
  have g := SameGround.sight { s with owners := s.owners.insert c r } c r.origin
  have started :
      Least P ({ s with owners := s.owners.insert c r }.sight c r.origin).contacts[k]? := by
    rw [contacts_sight]
    exact h
  apply (least_foldl_approach c r (s.track.neighbors c) started).congr
  intro n
  rw [g.owners]

theorem getElem?_owners_settle (s : Territory) (c : Cell) (r : Reach) (d : Cell) :
    (s.settle c r).owners[d]? = if c = d then some r else s.owners[d]? := by
  rw [owners_settle, lookup_insert]

/-! ## Units -/

/-- The territory without its first waiting cell. -/
def behind (s : Territory) (queue : Queue (Cell × Reach)) : Territory :=
  { s with queue, processed := s.processed + 1 }

theorem advance_of_done (h : s.isDone = true) : s.advance = s := by
  have none : s.queue.pop? = none := Queue.pop?_eq_none_iff.2 (Queue.isEmpty_iff.1 h)
  simp [advance, none]

/-- A unit takes the first waiting cell: it drops the cell if it is owned, and settles it if not. -/
theorem advance_cases (h : s.isDone = false) :
    ∃ c r rest, s.queue.toList = (c, r) :: rest.toList ∧
      ((c ∈ s.owners ∧ s.advance = s.behind rest) ∨
        (c ∉ s.owners ∧ s.advance = (s.behind rest).settle c r)) := by
  obtain ⟨⟨c, r⟩, rest, hp⟩ := Queue.pop?_isSome_of_isEmpty_eq_false h
  refine ⟨c, r, rest, Queue.toList_of_pop? hp, ?_⟩
  by_cases ho : c ∈ s.owners
  · exact Or.inl ⟨ho, by simp [advance, hp, ho, behind]⟩
  · exact Or.inr ⟨ho, by simp [advance, hp, ho, behind]⟩

end Territory

end Signalbox
