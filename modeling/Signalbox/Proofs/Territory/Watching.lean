import Signalbox.Proofs.Territory.Contacts
import Signalbox.Proofs.Territory.Lineage

/-!
# What is noted at junctions

While territory is taken, a record is kept of the origins seen at every junction and of the origins
met beyond each of its arms.  Both are written bit by bit, whenever a cell that gets its owner faces
one of another origin.  Between two units of work both say the same as the owners do:

* an origin was seen at a junction if it owns the junction or faces it (`Sighted`);
* an origin was met beyond an arm of a junction if it faces a cell at or below that arm in the tree
  of parents, unless the junction is where its owner started (`Traced`).

A walk back stops early where it comes to something that was noted before.  Nothing is lost, since
an earlier walk went on from there and noted all that is above (`Traced.above`); this is what the
proof of `Traced.traceBack` rests on.

* `Territory.Watched.advance` : every unit keeps the records right;
* `Territory.watched_taken`   : so they are when all territory is taken.
-/

set_option autoImplicit false

namespace Signalbox

namespace Territory

variable {s : Territory} {a c d j k v : Cell} {r q : Reach} {o p : Origin}
  {arm : Cell} {trail : List Cell} {met : Cell → Origin → Prop} {rest : Queue (Cell × Reach)}

/-! ## What one record adds -/

theorem mem_seenAt_sight : p ∈ (s.sight c o).seenAt j ↔
    p ∈ s.seenAt j ∨ (s.track.isJunction j = true ∧ j = c ∧ p = o) := by
  unfold sight
  split
  · rename_i junction
    simp only [seenAt, lookup_insert]
    by_cases hj : c = j
    · subst hj
      simp only [junction, if_true, Option.getD_some, Std.ExtTreeSet.mem_insert,
        Std.compare_eq_iff_eq, true_and]
      rw [or_comm, eq_comm]
    · simp [hj, Ne.symm hj]
  · rename_i plain
    simp only [iff_self_or]
    rintro ⟨junction, rfl, -⟩
    exact absurd junction plain

@[simp] theorem metBeyond_sight (s : Territory) (c : Cell) (o : Origin) (j : Cell) :
    (s.sight c o).metBeyond j = s.metBeyond j := by
  unfold sight
  split <;> rfl

@[simp] theorem seenAt_traceBack (s : Territory) (o : Origin) (arm : Cell) (trail : List Cell)
    (j : Cell) : (s.traceBack o arm trail).seenAt j = s.seenAt j := by
  induction trail generalizing s arm with
  | nil => rfl
  | cons c trail ih =>
    unfold traceBack
    simp only
    split
    · split
      · rfl
      · exact ih _ c
    · exact ih s c

/-- The territory in which another origin was met beyond an arm of a cell. -/
def note (s : Territory) (c arm : Cell) (o : Origin) : Territory :=
  { s with encounters := s.encounters.insert c ((s.metBeyond c).insert ⟨arm, o⟩) }

theorem mem_metBeyond_note : ⟨a, p⟩ ∈ (s.note c arm o).metBeyond j ↔
    ⟨a, p⟩ ∈ s.metBeyond j ∨ (p = o ∧ j = c ∧ a = arm) := by
  simp only [note, metBeyond, lookup_insert]
  by_cases hj : c = j
  · subst hj
    simp only [if_true, Option.getD_some, Std.ExtTreeSet.mem_insert, Std.compare_eq_iff_eq,
      Encounter.mk.injEq, true_and]
    constructor
    · rintro (⟨rfl, rfl⟩ | h)
      · exact Or.inr ⟨rfl, rfl⟩
      · exact Or.inl h
    · rintro (h | ⟨rfl, rfl⟩)
      · exact Or.inr h
      · exact Or.inl ⟨rfl, rfl⟩
  · simp [hj, Ne.symm hj]

theorem traceBack_cons (s : Territory) (o : Origin) (arm c : Cell) (trail : List Cell) :
    s.traceBack o arm (c :: trail) =
      if s.track.isJunction c = true ∧ trail ≠ [] then
        if ⟨arm, o⟩ ∈ s.metBeyond c then s else (s.note c arm o).traceBack o c trail
      else s.traceBack o c trail := rfl

/-! ## Walks back -/

/-- Whatever was met beyond one of some cells was noted on the whole way up from it. -/
def NotedAbove (s : Territory) (o : Origin) (cells : List Cell) : Prop :=
  ∀ j ∈ cells, ∀ a, ⟨a, o⟩ ∈ s.metBeyond j → ∀ r, s.owners[j]? = some r →
    ∀ k b, s.track.isJunction k = true → Passes j r.trail k b → ⟨b, o⟩ ∈ s.metBeyond k

theorem NotedAbove.note (h : s.NotedAbove o trail) (fresh : c ∉ trail) :
    (s.note c arm o).NotedAbove o trail := by
  intro j hj a ha r hr k b junction passes
  rcases mem_metBeyond_note.1 ha with ha | ⟨-, rfl, -⟩
  · exact mem_metBeyond_note.2 (Or.inl (h j hj a ha r hr k b junction passes))
  · exact absurd hj fresh

/-- **A walk back notes all junctions that it passes**, although it may stop early. -/
theorem mem_metBeyond_traceBack (rooted : Rooted s) {e : Origin} (continues : s.Continues e trail)
    (noted : s.NotedAbove o trail) :
    ⟨a, p⟩ ∈ (s.traceBack o arm trail).metBeyond j ↔ ⟨a, p⟩ ∈ s.metBeyond j ∨
      (p = o ∧ s.track.isJunction j = true ∧ Passes arm trail j a) := by
  induction trail generalizing s arm with
  | nil => simp [traceBack, Passes]
  | cons c trail ih =>
    have owned := continues c trail rfl
    have continues' := rooted.continues owned
    have noted' : s.NotedAbove o trail := fun k hk => noted k (List.mem_cons_of_mem c hk)
    rw [traceBack_cons]
    split
    · rename_i passed
      split
      · -- the walk stops: what it has not noted itself was noted before
        rename_i before
        rw [iff_self_or]
        rintro ⟨rfl, junction, ⟨rfl, rfl, -⟩ | passes⟩
        · exact before
        · exact noted c (List.mem_cons_self ..) arm before _ owned j a junction passes
      · have fresh : c ∉ trail := (List.nodup_cons.1 (rooted.nodup owned)).1
        rw [ih (s := s.note c arm o) rooted continues' (noted'.note fresh), mem_metBeyond_note,
          or_assoc]
        refine or_congr_right ?_
        rw [← and_or_left]
        refine and_congr_right fun _ => ?_
        show _ ∨ (s.track.isJunction j = true ∧ _) ↔ _
        rw [Passes, and_or_left]
        refine or_congr_left ⟨?_, fun h => ⟨h.2.1, h.2.2.1⟩⟩
        rintro ⟨rfl, rfl⟩
        exact ⟨passed.1, rfl, rfl, passed.2⟩
    · rename_i unmarked
      rw [ih rooted continues' noted']
      refine or_congr_right (and_congr_right fun _ => and_congr_right fun junction => ?_)
      rw [Passes, iff_or_self]
      rintro ⟨rfl, -, goesOn⟩
      exact absurd ⟨junction, goesOn⟩ unmarked

/-! ## The records, said of the contacts made -/

/-- At every junction its owner was seen, and whoever was met there. -/
def Sighted (s : Territory) (met : Cell → Origin → Prop) : Prop :=
  ∀ j o, o ∈ s.seenAt j ↔ s.track.isJunction j = true ∧ (s.owner? j = some o ∨ met j o)

/-- At every junction that a walk back passes from a cell at which another origin was met, this
origin is noted. -/
def Traced (s : Territory) (met : Cell → Origin → Prop) : Prop :=
  ∀ j a o, ⟨a, o⟩ ∈ s.metBeyond j ↔ s.track.isJunction j = true ∧
    ∃ v r, s.owners[v]? = some r ∧ met v o ∧ Passes v r.trail j a

/-- What was met beyond a junction was noted on the whole way up from it. -/
theorem Traced.above (h : Traced s met) (rooted : Rooted s) (cells : List Cell) :
    s.NotedAbove o cells := by
  intro j _ a ha r hr k b junction passes
  obtain ⟨-, v, ⟨e, trail⟩, owned, contact, passes'⟩ := (h j a o).1 ha
  exact (h k b o).2 ⟨junction, v, _, owned, contact, rooted.passes_trans owned passes' hr passes⟩

/-- **What is noted, said of the tree of parents.** -/
theorem Traced.mem_metBeyond (h : Traced s met) (rooted : Rooted s)
    (known : ∀ v o, met v o → v ∈ s.owners) : ⟨a, o⟩ ∈ s.metBeyond j ↔
      s.track.isJunction j = true ∧ s.Remote j ∧ s.parent? a = some j ∧
        ∃ v, s.Below a v ∧ met v o := by
  rw [h j a o]
  refine and_congr_right fun _ => ⟨?_, ?_⟩
  · rintro ⟨v, ⟨e, trail⟩, owned, contact, passes⟩
    obtain ⟨link, below, remote⟩ := (rooted.passes_iff owned).1 passes
    exact ⟨remote, link, v, below, contact⟩
  · rintro ⟨remote, link, v, below, contact⟩
    obtain ⟨⟨e, trail⟩, owned⟩ := mem_iff_lookup.1 (known v o contact)
    exact ⟨v, _, owned, contact, (rooted.passes_iff owned).2 ⟨link, below, remote⟩⟩

theorem Traced.congr {t : Territory} (h : Traced s met) (ground : SameGround s t)
    (same : ∀ j, t.metBeyond j = s.metBeyond j) : Traced t met := by
  intro j a o
  rw [ground.track, ground.owners, same]
  exact h j a o

theorem Sighted.sight (h : Sighted s met) (c : Cell) (o : Origin) :
    Sighted (s.sight c o) fun v p => met v p ∨ (v = c ∧ p = o) := by
  have ground := SameGround.sight s c o
  intro j p
  rw [mem_seenAt_sight, h, owner?, owner?, ground.track, ground.owners, ← and_or_left, or_assoc]

/-- **Walking back from a contact notes it where it belongs.** -/
theorem Traced.traceBack (h : Traced s met) (rooted : Rooted s) (owned : s.owners[c]? = some r)
    (o : Origin) : Traced (s.traceBack o c r.trail) fun v p => met v p ∨ (v = c ∧ p = o) := by
  obtain ⟨e, trail⟩ := r
  have ground := SameGround.traceBack s o c trail
  intro j a p
  rw [mem_metBeyond_traceBack rooted (rooted.continues owned) (h.above rooted trail), h,
    ground.track, ground.owners]
  constructor
  · rintro (⟨junction, v, r, hr, contact, passes⟩ | ⟨rfl, junction, passes⟩)
    · exact ⟨junction, v, r, hr, Or.inl contact, passes⟩
    · exact ⟨junction, c, _, owned, Or.inr ⟨rfl, rfl⟩, passes⟩
  · rintro ⟨junction, v, r, hr, contact | ⟨rfl, rfl⟩, passes⟩
    · exact Or.inl ⟨junction, v, r, hr, contact, passes⟩
    · rw [owned] at hr
      cases hr
      exact Or.inr ⟨rfl, junction, passes⟩

/-! ## Contacts -/

/-- Both records are right about the contacts made. -/
structure Recorded (s : Territory) (met : Cell → Origin → Prop) : Prop where
  sighted : Sighted s met
  traced : Traced s met

theorem Recorded.congr {met' : Cell → Origin → Prop} (h : Recorded s met)
    (same : ∀ v o, met v o ↔ met' v o) : Recorded s met' := by
  have eq : met = met' := funext fun v => funext fun o => propext (same v o)
  rwa [← eq]

/-- What two cells meet in each other when one of them, owned by `r`, gets its owner: nothing unless
the other one is owned by another origin. -/
def Crosses (owners : Std.ExtTreeMap Cell Reach) (c : Cell) (r : Reach) (d v : Cell)
    (o : Origin) : Prop :=
  ∃ q, owners[d]? = some q ∧ q.origin ≠ r.origin ∧
    ((v = c ∧ o = q.origin) ∨ (v = d ∧ o = r.origin))

theorem Recorded.meet (h : Recorded s met) (rooted : Rooted s) (hc : s.owners[c]? = some r)
    (hd : s.owners[d]? = some q) :
    Recorded (s.meet c r d q)
      fun v o => met v o ∨ ((v = c ∧ o = q.origin) ∨ (v = d ∧ o = r.origin)) := by
  let joined := s.connect r.origin q.origin (r.distance + 1 + q.distance)
  let watched := (joined.sight c q.origin).sight d r.origin
  have ground : SameGround s watched :=
    ((SameGround.connect s _ _ _).trans (SameGround.sight joined _ _)).trans (SameGround.sight _ _ _)
  let walked := watched.traceBack q.origin c r.trail
  have ground' : SameGround s walked := ground.trans (SameGround.traceBack watched _ _ _)
  have seen : Sighted watched _ := (h.sighted.sight (s := joined) c q.origin).sight d r.origin
  have before : Traced watched met :=
    h.traced.congr ground fun j => (metBeyond_sight _ d _ j).trans (metBeyond_sight joined c _ j)
  have first := before.traceBack (rooted.congr ground.owners)
    (by rw [ground.owners]; exact hc) q.origin
  have second := first.traceBack (rooted.congr ground'.owners)
    (by rw [ground'.owners]; exact hd) r.origin
  have assoc : ∀ v o, ((met v o ∨ (v = c ∧ o = q.origin)) ∨ (v = d ∧ o = r.origin)) ↔
      met v o ∨ ((v = c ∧ o = q.origin) ∨ (v = d ∧ o = r.origin)) := fun v o => or_assoc
  refine Recorded.congr ⟨fun j o => ?_, second⟩ assoc
  have final : SameGround watched (s.meet c r d q) :=
    (SameGround.traceBack watched _ _ _).trans (SameGround.traceBack walked _ _ _)
  rw [owner?, final.track, final.owners, Territory.meet, touch, seenAt_traceBack, seenAt_traceBack]
  exact seen j o

theorem Recorded.approach (h : Recorded s met) (rooted : Rooted s) (hc : s.owners[c]? = some r)
    (d : Cell) : Recorded (approach c r s d) fun v o => met v o ∨ Crosses s.owners c r d v o := by
  unfold Territory.approach
  cases hd : s.owners[d]? with
  | none => exact Recorded.congr ⟨h.sighted, h.traced⟩ fun v o => by simp [Crosses, hd]
  | some q =>
    simp only
    by_cases same : q.origin = r.origin
    · rw [if_pos same]
      exact h.congr fun v o => by simp [Crosses, hd, same]
    · rw [if_neg same]
      exact (h.meet rooted hc hd).congr fun v o => by simp [Crosses, hd, same]

theorem Recorded.foldl_approach (h : Recorded s met) (rooted : Rooted s)
    (hc : s.owners[c]? = some r) (ds : List Cell) :
    Recorded (ds.foldl (Territory.approach c r) s)
      fun v o => met v o ∨ ∃ d ∈ ds, Crosses s.owners c r d v o := by
  induction ds generalizing s met with
  | nil => exact h.congr fun v o => by simp
  | cons d ds ih =>
    have owners : (Territory.approach c r s d).owners = s.owners := (ground_approach c r s d).2.2
    have own : (Territory.approach c r s d).owners[c]? = some r := by rw [owners]; exact hc
    refine (ih (h.approach rooted hc d) (rooted.congr owners) own).congr fun v o => ?_
    simp only [owners, List.mem_cons, exists_eq_or_imp, or_assoc]

/-- Giving a cell to its owner is seen at the cell itself. -/
theorem Recorded.insert (h : Recorded s met) (known : ∀ v o, met v o → v ∈ s.owners)
    (rest : Queue (Cell × Reach)) (r : Reach) (hc : c ∉ s.owners) :
    Recorded ({ s.behind rest with owners := s.owners.insert c r }.sight c r.origin) met := by
  have free : s.owners[c]? = none := Std.ExtTreeMap.getElem?_eq_none hc
  have unmet (o : Origin) : ¬ met c o := fun contact => hc (known c o contact)
  have ground := SameGround.sight { s.behind rest with owners := s.owners.insert c r } c r.origin
  refine ⟨fun j o => ?_, fun j a o => ?_⟩
  · rw [mem_seenAt_sight, owner?, ground.track, ground.owners]
    show o ∈ s.seenAt j ∨ (s.track.isJunction j = true ∧ _) ↔ s.track.isJunction j = true ∧ _
    rw [h.sighted j o, ← and_or_left, lookup_insert]
    refine and_congr_right fun _ => ?_
    by_cases hj : c = j
    · subst hj
      simp [owner?, unmet, free, eq_comm]
    · simp [owner?, hj, Ne.symm hj]
  · rw [metBeyond_sight, ground.track, ground.owners]
    show _ ∈ s.metBeyond j ↔ s.track.isJunction j = true ∧ _
    rw [h.traced j a o]
    refine and_congr_right fun _ => exists_congr fun v => exists_congr fun q => ?_
    rw [lookup_insert]
    by_cases hv : c = v
    · subst hv
      simp [unmet, free]
    · rw [if_neg hv]

/-! ## Between two units -/

/-- An owned cell faces another origin: that one owns a neighbour. -/
def Faces (s : Territory) (v : Cell) (o : Origin) : Prop :=
  ∃ r, s.owners[v]? = some r ∧ r.origin ≠ o ∧ ∃ d ∈ s.track.neighbors v, s.owner? d = some o

theorem Faces.owned (h : s.Faces v o) : v ∈ s.owners := by
  obtain ⟨r, owned, -⟩ := h
  exact mem_iff_lookup.2 ⟨r, owned⟩

/-- Both records say what the owners say. -/
def Watched (s : Territory) : Prop := Recorded s s.Faces

theorem owner?_eq_some_iff : s.owner? c = some o ↔ ∃ r, s.owners[c]? = some r ∧ r.origin = o := by
  rw [owner?, Option.map_eq_some_iff]

theorem faces_iff : s.Faces v o ↔ ∃ r d q, s.Front v r d q ∧ q.origin = o := by
  simp only [Faces, Front, owner?_eq_some_iff]
  constructor
  · rintro ⟨r, owned, differs, d, hd, q, hq, rfl⟩
    exact ⟨r, d, q, ⟨owned, hd, hq, differs.symm⟩, rfl⟩
  · rintro ⟨r, d, q, ⟨owned, hd, hq, differs⟩, rfl⟩
    exact ⟨r, owned, differs.symm, d, hd, q, hq, rfl⟩

/-- What a settled cell adds to those that face each other is what it and its neighbours meet. -/
theorem faces_settle (h : Frontier s) (laid : s.Laid)
    (hq : s.queue.toList = (c, r) :: rest.toList) (hc : c ∉ s.owners) :
    ((s.behind rest).settle c r).Faces v o ↔
      s.Faces v o ∨ ∃ d ∈ s.track.neighbors c, Crosses (s.owners.insert c r) c r d v o := by
  rw [faces_iff, faces_iff]
  constructor
  · rintro ⟨p, d, q, front, rfl⟩
    rcases (front_settle h laid hq hc).1 front with old | ⟨rfl, new⟩ | ⟨rfl, new⟩
    · exact Or.inl ⟨p, d, q, old, rfl⟩
    · obtain ⟨rfl, hd, owned, differs⟩ := front_settle_self.1 new
      exact Or.inr ⟨d, hd, q, owned, differs, Or.inl ⟨rfl, rfl⟩⟩
    · obtain ⟨rfl, hv, owned, differs⟩ := front_settle_self.1 new
      exact Or.inr ⟨v, hv, p, owned, differs, Or.inr ⟨rfl, rfl⟩⟩
  · rintro (⟨p, d, q, old, rfl⟩ | ⟨d, hd, q, owned, differs, sides⟩)
    · exact ⟨p, d, q, (front_settle h laid hq hc).2 (Or.inl old), rfl⟩
    · have new : ((s.behind rest).settle c r).Front c r d q :=
        front_settle_self.2 ⟨rfl, hd, owned, differs⟩
      rcases sides with ⟨rfl, rfl⟩ | ⟨rfl, rfl⟩
      · exact ⟨r, d, q, new, rfl⟩
      · exact ⟨q, c, r, new.symm (h.settle hq hc) (laid.settle rest c r), rfl⟩

theorem Watched.settle (w : Watched s) (h : Frontier s) (laid : s.Laid)
    (hq : s.queue.toList = (c, r) :: rest.toList) (hc : c ∉ s.owners) :
    Watched ((s.behind rest).settle c r) := by
  let t : Territory := { s.behind rest with owners := s.owners.insert c r }.sight c r.origin
  have ground : SameGround { s.behind rest with owners := s.owners.insert c r } t :=
    SameGround.sight _ c r.origin
  have owners : t.owners = s.owners.insert c r := ground.owners
  have settled : ((s.behind rest).settle c r).owners = t.owners := by
    rw [owners_settle, owners]
    rfl
  have rooted : Rooted t := (h.settle hq hc).rooted.congr settled.symm
  have own : t.owners[c]? = some r := by rw [owners, lookup_insert, if_pos rfl]
  have inserted := Recorded.insert w (fun _ _ => Faces.owned) rest r hc
  refine (inserted.foldl_approach rooted own (s.track.neighbors c)).congr fun v o => ?_
  rw [faces_settle h laid hq hc, owners]

/-- **Every unit keeps the records right.** -/
theorem Watched.advance (w : Watched s) (h : Frontier s) (laid : s.Laid) (hs : s.isDone = false) :
    Watched s.advance := by
  obtain ⟨c, r, rest, hq, ⟨-, he⟩ | ⟨hc, he⟩⟩ := advance_cases hs
  · rw [he]
    exact ⟨w.sighted, w.traced⟩
  · rw [he]
    exact w.settle h laid hq hc

/-! ## Whole runs -/

theorem records_plant (s : Territory) (claimed : Std.ExtTreeMap Cell Origin)
    (later : List (Origin × Cell)) :
    (s.plant claimed later).sightings = s.sightings ∧
      (s.plant claimed later).encounters = s.encounters := by
  induction later generalizing s claimed with
  | nil => exact ⟨rfl, rfl⟩
  | cons a later ih =>
    obtain ⟨o, c⟩ := a
    unfold plant
    cases claimed[c]? with
    | none => exact ih _ _
    | some p =>
      by_cases hp : p = o
      · simp only [if_pos hp]
        exact ih _ _
      · simp only [if_neg hp]
        exact ih _ _

theorem watched_start (t : Track) (ns : List Site) : Watched (start t ns) := by
  have sightings : (start t ns).sightings = ∅ := (records_plant _ _ _).1
  have encounters : (start t ns).encounters = ∅ := (records_plant _ _ _).2
  refine ⟨fun j o => ?_, fun j a o => ?_⟩
  · simp [seenAt, sightings, owner?, Faces]
  · simp [metBeyond, encounters]

end Territory

end Signalbox
