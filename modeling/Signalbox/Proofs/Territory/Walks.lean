import Mathlib.Computability.StateTransition
import Signalbox.Proofs.Territory.Watching

/-!
# Walks back over the parents

Where two territories touch, a walk back starts on either side.  It goes from cell to parent, and
every junction on its way that the owner does not start from notes the arm and the other origin.  A
*brief* walk stops at a junction that has noted the same before, a *full* walk goes on until there
is no parent.  Both take turns until they end; nothing in a turn says that they do.

A chronicle is a territory that is taken with walks of one kind, and the list of all contacts made.
Between two units of work it does not matter which kind it is: walks of both kinds end, and both
chronicles have the territory that `Territory.advance` makes out of trails, in all that it records.

* `Territory.Traced.walkBack`  : both walks from a contact come to what tracing its trail comes to;
* `Chronicle.Kept`             : the invariant of keeping a chronicle;
* `Chronicle.comesTo_run`      : every run of both chronicles comes to the territory;
* `Territory.early_stop_loses_nothing` : what is noted is what full walks note.
-/

set_option autoImplicit false

namespace Signalbox

namespace Territory

variable {s : Territory} {a c d j v : Cell} {r q : Reach} {o : Origin} {arm : Cell}
  {trail : List Cell} {met : Cell → Origin → Prop}

/-! ## Walks -/

/-- A walk back on its way: what is noted by now, the cell that it comes from, and the cell where it
goes on, if there is one. -/
structure Walk where
  territory : Territory
  arm : Cell
  next : Option Cell

/-- One turn of a walk back for an origin that was met.  A junction that its owner went some way to
notes the arm and the origin; there a brief walk ends if they were noted before. -/
def Walk.turn (brief : Bool) (o : Origin) (w : Walk) : Option Walk :=
  match w.next with
  | none => none
  | some c =>
    match w.territory.owners[c]? with
    | none => none
    | some r =>
      if w.territory.track.isJunction c = true ∧ 0 < r.distance then
        let known := ⟨w.arm, o⟩ ∈ w.territory.metBeyond c
        some ⟨w.territory.note c w.arm o, c, if brief = true ∧ known then none else r.trail.head?⟩
      else some ⟨w.territory, c, r.trail.head?⟩

/-- What a walk back comes to when it takes turns until it ends, if it does. -/
def walkBack (brief : Bool) (s : Territory) (o : Origin) (arm : Cell) (next : Option Cell) :
    Part Territory :=
  (StateTransition.eval (Walk.turn brief o) ⟨s, arm, next⟩).map Walk.territory

theorem walkBack_none (brief : Bool) (s : Territory) (o : Origin) (arm : Cell) :
    s.walkBack brief o arm none = Part.some s := by
  have ended : StateTransition.eval (Walk.turn brief o) ⟨s, arm, none⟩ = Part.some ⟨s, arm, none⟩ :=
    Part.eq_some_iff.2 (StateTransition.mem_eval.2 ⟨.refl, rfl⟩)
  rw [walkBack, ended, Part.map_some]

theorem walkBack_of_turn {brief : Bool} {t : Territory} {b : Cell} {here next : Option Cell}
    (h : Walk.turn brief o ⟨s, arm, here⟩ = some ⟨t, b, next⟩) :
    s.walkBack brief o arm here = t.walkBack brief o b next :=
  congrArg (Part.map Walk.territory) (StateTransition.reaches_eval (.single h))

theorem walkBack_some (owned : s.owners[c]? = some r) (brief : Bool) (o : Origin) (arm : Cell) :
    s.walkBack brief o arm (some c) =
      if s.track.isJunction c = true ∧ 0 < r.distance then
        (s.note c arm o).walkBack brief o c
          (if brief = true ∧ ⟨arm, o⟩ ∈ s.metBeyond c then none else r.trail.head?)
      else s.walkBack brief o c r.trail.head? := by
  split
  · rename_i passed
    exact walkBack_of_turn (by simp only [Walk.turn, owned, if_pos passed])
  · rename_i unmarked
    exact walkBack_of_turn (by simp only [Walk.turn, owned, if_neg unmarked])

theorem note_of_mem (before : ⟨arm, o⟩ ∈ s.metBeyond c) : s.note c arm o = s := by
  have known : s.encounters[c]? = some (s.metBeyond c) := by
    unfold metBeyond at before ⊢
    cases found : s.encounters[c]? with
    | none => simp [found] at before
    | some noted => rfl
  have again : (s.metBeyond c).insert ⟨arm, o⟩ = s.metBeyond c := by
    refine Std.ExtTreeSet.ext_mem fun e => ?_
    rw [Std.ExtTreeSet.mem_insert, Std.compare_eq_iff_eq, or_iff_right_iff_imp]
    rintro rfl
    exact before
  rw [note, again, insert_of_lookup known]

/-- Where all that a trail passes was noted before, tracing it back changes nothing. -/
theorem traceBack_of_noted (noted : ∀ j a, s.track.isJunction j = true →
    Passes arm trail j a → ⟨a, o⟩ ∈ s.metBeyond j) : s.traceBack o arm trail = s := by
  induction trail generalizing arm with
  | nil => rfl
  | cons c trail ih =>
    rw [traceBack_cons]
    split
    · rename_i passed
      rw [if_pos (noted c arm passed.1 (Or.inl ⟨rfl, rfl, passed.2⟩))]
    · exact ih fun j a junction passes => noted j a junction (Or.inr passes)

/-- **Walks of both kinds end, and come to what tracing the trail comes to**, where whatever was
noted was noted on the whole way up.  A full walk goes on where a brief one ends, but finds
everything noted. -/
theorem walkBack_eq_traceBack (brief : Bool) (rooted : Rooted s) {e : Origin}
    (continues : s.Continues e trail) (noted : s.NotedAbove o trail) :
    s.walkBack brief o arm trail.head? = Part.some (s.traceBack o arm trail) := by
  induction trail generalizing s arm with
  | nil => exact walkBack_none brief s o arm
  | cons c trail ih =>
    have owned := continues c trail rfl
    have continues' := rooted.continues owned
    have noted' : s.NotedAbove o trail := fun j hj => noted j (List.mem_cons_of_mem c hj)
    have far : 0 < (⟨e, trail⟩ : Reach).distance ↔ trail ≠ [] := List.length_pos_iff
    rw [List.head?_cons, walkBack_some owned, traceBack_cons]
    simp only [far]
    split
    · by_cases before : ⟨arm, o⟩ ∈ s.metBeyond c
      · -- an earlier walk went on from here, so that above a full walk finds everything noted
        have above := noted c (List.mem_cons_self ..) arm before _ owned
        rw [note_of_mem before, if_pos before]
        cases brief with
        | true => rw [if_pos ⟨rfl, before⟩, walkBack_none]
        | false => rw [if_neg (by simp), ih rooted continues' noted', traceBack_of_noted above]
      · have fresh : c ∉ trail := (List.nodup_cons.1 (rooted.nodup owned)).1
        rw [if_neg fun both => before both.2, if_neg before]
        exact ih (s := s.note c arm o) rooted continues' (noted'.note fresh)
    · exact ih rooted continues' noted'

theorem parent?_of_owned (owned : s.owners[c]? = some r) : s.parent? c = r.trail.head? := by
  rw [parent?, owned, Option.bind_some]

theorem Traced.walkBack (h : Traced s met) (rooted : Rooted s) (owned : s.owners[c]? = some r)
    (brief : Bool) (o : Origin) :
    s.walkBack brief o c (s.parent? c) = Part.some (s.traceBack o c r.trail) := by
  rw [parent?_of_owned owned]
  exact walkBack_eq_traceBack brief rooted (rooted.continues owned) (h.above rooted r.trail)

/-- A walk from a contact that was made before finds everything noted. -/
theorem Traced.walkBack_again (h : Traced s met) (rooted : Rooted s)
    (owned : s.owners[v]? = some r) (contact : met v o) (brief : Bool) :
    s.walkBack brief o v (s.parent? v) = Part.some s := by
  have noted : s.traceBack o v r.trail = s := traceBack_of_noted fun j a junction passes =>
    (h j a o).2 ⟨junction, v, r, owned, contact, passes⟩
  rw [h.walkBack rooted owned, noted]

/-- The parents of an owned cell lead up to an anchor of its owner. -/
theorem Frontier.exists_root (h : Frontier s) (owned : s.owners[v]? = some r) :
    ∃ a, s.Below a v ∧ s.parent? a = none ∧ Origin.Anchored s.origins r.origin a := by
  obtain ⟨e, trail⟩ := r
  induction trail generalizing v with
  | nil => exact ⟨v, .here, parent?_of_owned owned, h.leads v _ (Or.inl owned)⟩
  | cons p trail ih =>
    obtain ⟨a, below, root, anchored⟩ := ih (h.rooted v e p trail owned)
    exact ⟨a, .under below (parent?_of_owned owned), root, anchored⟩

end Territory

/-! ## Chronicles -/

/-- A territory, and all contacts made: the cells at which they were made with the origins met
there. -/
structure Chronicle where
  territory : Territory
  contacts : List (Cell × Origin)

namespace Chronicle

open Territory

/-- The territories of two origins touch at the cells `c` and `d`: a contact is made at either, and
walks back start from both. -/
def meet (brief : Bool) (k : Chronicle) (c : Cell) (r : Reach) (d : Cell) (q : Reach) :
    Part Chronicle := do
  let s := ((k.territory.connect r.origin q.origin (r.distance + 1 + q.distance)).sight c
    q.origin).sight d r.origin
  let s ← s.walkBack brief q.origin c (s.parent? c)
  let s ← s.walkBack brief r.origin d (s.parent? d)
  return ⟨s, k.contacts ++ [(c, q.origin), (d, r.origin)]⟩

/-- The cell `d` beside the newly owned cell `c`. -/
def approach (brief : Bool) (c : Cell) (r : Reach) (k : Chronicle) (d : Cell) : Part Chronicle :=
  match k.territory.owners[d]? with
  | some q => if q.origin = r.origin then Part.some k else k.meet brief c r d q
  | none => Part.some { k with territory := k.territory.enqueue d ⟨r.origin, c :: r.trail⟩ }

/-- Give a cell to the origin that reached it. -/
def settle (brief : Bool) (k : Chronicle) (c : Cell) (r : Reach) : Part Chronicle :=
  (k.territory.track.neighbors c).foldlM (approach brief c r)
    { k with
      territory := { k.territory with owners := k.territory.owners.insert c r }.sight c r.origin }

/-- One unit of work. -/
def advance (brief : Bool) (k : Chronicle) : Part Chronicle :=
  match k.territory.queue.pop? with
  | none => Part.some k
  | some ((c, r), queue) =>
    let k := { k with territory := k.territory.behind queue }
    if c ∈ k.territory.owners then Part.some k else k.settle brief c r

/-- So many units of work. -/
def run (brief : Bool) (k : Chronicle) : Nat → Part Chronicle
  | 0 => Part.some k
  | n + 1 => (k.run brief n).bind (advance brief)

variable {k : Chronicle} {s : Territory} {c d : Cell} {r q : Reach} {o : Origin}

/-! ## The invariant -/

/-- A contact was made. -/
def Met (k : Chronicle) (v : Cell) (o : Origin) : Prop := (v, o) ∈ k.contacts

/-- What holds between any two units: the records are right about the contacts made, and contacts
were made at owned cells. -/
structure Kept (k : Chronicle) : Prop where
  recorded : Recorded k.territory k.Met
  known : ∀ v o, k.Met v o → v ∈ k.territory.owners

/-- Chronicles of both kinds come to the same one, which has this territory. -/
def ComesTo (walks : Bool → Part Chronicle) (s : Territory) : Prop :=
  ∃ k : Chronicle, (∀ brief, walks brief = Part.some k) ∧ k.territory = s ∧ k.Kept

theorem Kept.comesTo (h : k.Kept) : ComesTo (fun _ => Part.some k) k.territory :=
  ⟨k, fun _ => rfl, rfl, h⟩

theorem ComesTo.bind {walks : Bool → Part Chronicle} {next : Bool → Chronicle → Part Chronicle}
    {t : Territory} (h : ComesTo walks s)
    (step : ∀ k : Chronicle, k.territory = s → k.Kept → ComesTo (fun brief => next brief k) t) :
    ComesTo (fun brief => (walks brief).bind (next brief)) t := by
  obtain ⟨k, comes, same, kept⟩ := h
  obtain ⟨l, goesOn, end'⟩ := step k same kept
  refine ⟨l, fun brief => ?_, end'⟩
  show (walks brief).bind (next brief) = Part.some l
  rw [comes, Part.bind_some]
  exact goesOn brief

/-! ## One unit -/

theorem comesTo_meet (h : k.Kept) (rooted : Rooted k.territory)
    (hc : k.territory.owners[c]? = some r) (hd : k.territory.owners[d]? = some q) :
    ComesTo (fun brief => k.meet brief c r d q) (k.territory.meet c r d q) := by
  let joined := k.territory.connect r.origin q.origin (r.distance + 1 + q.distance)
  let watched := (joined.sight c q.origin).sight d r.origin
  have ground : SameGround k.territory watched :=
    ((SameGround.connect k.territory _ _ _).trans (SameGround.sight joined _ _)).trans
      (SameGround.sight _ _ _)
  let walked := watched.traceBack q.origin c r.trail
  have ground' : SameGround k.territory walked := ground.trans (SameGround.traceBack watched _ _ _)
  have before : Traced watched k.Met :=
    h.recorded.traced.congr ground fun j =>
      (metBeyond_sight _ d _ j).trans (metBeyond_sight joined c _ j)
  have rooted' : Rooted watched := rooted.congr ground.owners
  have hc' : watched.owners[c]? = some r := by rw [ground.owners, hc]
  have hd' : walked.owners[d]? = some q := by rw [ground'.owners, hd]
  have first (brief : Bool) :
      watched.walkBack brief q.origin c (watched.parent? c) = Part.some walked :=
    before.walkBack rooted' hc' brief q.origin
  have second (brief : Bool) : walked.walkBack brief r.origin d (walked.parent? d) =
      Part.some (k.territory.meet c r d q) :=
    (before.traceBack rooted' hc' q.origin).walkBack (rooted.congr ground'.owners) hd' brief
      r.origin
  refine ⟨⟨k.territory.meet c r d q, k.contacts ++ [(c, q.origin), (d, r.origin)]⟩,
    fun brief => ?_, rfl, ?_, ?_⟩
  · calc k.meet brief c r d q
        = (watched.walkBack brief q.origin c (watched.parent? c)).bind _ := Part.bind_eq_bind _ _
      _ = (walked.walkBack brief r.origin d (walked.parent? d)).bind _ := by
          rw [first, Part.bind_some, Part.bind_eq_bind]
      _ = _ := by rw [second, Part.bind_some, Part.pure_eq_some]
  · exact (h.recorded.meet rooted hc hd).congr fun v o => by simp [Met]
  · intro v o contact
    have same := (SameGround.meet k.territory c r d q).owners
    show v ∈ (k.territory.meet c r d q).owners
    rw [same]
    simp only [Met, List.mem_append, List.mem_cons, Prod.mk.injEq, List.not_mem_nil, or_false]
      at contact
    rcases contact with old | ⟨rfl, -⟩ | ⟨rfl, -⟩
    · exact h.known v o old
    · exact mem_iff_lookup.2 ⟨r, hc⟩
    · exact mem_iff_lookup.2 ⟨q, hd⟩

theorem comesTo_approach (h : k.Kept) (rooted : Rooted k.territory)
    (hc : k.territory.owners[c]? = some r) (d : Cell) :
    ComesTo (fun brief => k.approach brief c r d) (Territory.approach c r k.territory d) := by
  unfold approach Territory.approach
  cases hd : k.territory.owners[d]? with
  | none => exact Kept.comesTo ⟨⟨h.recorded.sighted, h.recorded.traced⟩, h.known⟩
  | some q =>
    simp only
    split
    · exact h.comesTo
    · exact comesTo_meet h rooted hc hd

theorem comesTo_foldlM_approach (h : k.Kept) (rooted : Rooted k.territory)
    (hc : k.territory.owners[c]? = some r) (ds : List Cell) :
    ComesTo (fun brief => ds.foldlM (approach brief c r) k)
      (ds.foldl (Territory.approach c r) k.territory) := by
  induction ds generalizing k with
  | nil => exact h.comesTo
  | cons d ds ih =>
    simp only [List.foldlM_cons, Part.bind_eq_bind]
    refine (comesTo_approach h rooted hc d).bind fun l same kept => ?_
    have owners : l.territory.owners = k.territory.owners := by
      rw [same]
      exact (ground_approach c r k.territory d).2.2
    rw [List.foldl_cons, ← same]
    exact ih kept (rooted.congr owners) (by rw [owners, hc])

theorem comesTo_settle (h : k.Kept) (rest : Queue (Cell × Reach)) (hc : c ∉ k.territory.owners)
    (rooted : Rooted ((k.territory.behind rest).settle c r)) :
    ComesTo (fun brief => settle brief { k with territory := k.territory.behind rest } c r)
      ((k.territory.behind rest).settle c r) := by
  let t : Territory :=
    { k.territory.behind rest with owners := k.territory.owners.insert c r }.sight c r.origin
  have owners : t.owners = k.territory.owners.insert c r := (SameGround.sight _ c r.origin).owners
  have settled : ((k.territory.behind rest).settle c r).owners = t.owners := by
    rw [owners_settle, owners]
    rfl
  have inserted : Kept { k with territory := t } := by
    refine ⟨h.recorded.insert h.known rest r hc, fun v o contact => ?_⟩
    rw [owners, Std.ExtTreeMap.mem_insert]
    exact Or.inr (h.known v o contact)
  have own : t.owners[c]? = some r := by rw [owners, lookup_insert, if_pos rfl]
  exact comesTo_foldlM_approach inserted (rooted.congr settled.symm) own _

/-- **A unit of both chronicles comes to what a unit of the territory comes to.** -/
theorem comesTo_advance (h : k.Kept) (frontier : Frontier k.territory) :
    ComesTo (fun brief => k.advance brief) k.territory.advance := by
  cases done : k.territory.isDone with
  | true =>
    have none : k.territory.queue.pop? = none :=
      Queue.pop?_eq_none_iff.2 (Queue.isEmpty_iff.1 done)
    simp only [advance, none, advance_of_done done]
    exact h.comesTo
  | false =>
    obtain ⟨⟨c, r⟩, rest, popped⟩ := Queue.pop?_isSome_of_isEmpty_eq_false done
    have hq := Queue.toList_of_pop? popped
    have unit : k.territory.advance = if c ∈ k.territory.owners then k.territory.behind rest
        else (k.territory.behind rest).settle c r := by
      simp only [Territory.advance, popped, Territory.behind]
    simp only [advance, popped, unit]
    show ComesTo (fun brief => if c ∈ k.territory.owners then _ else _) _
    split
    · exact Kept.comesTo (k := { k with territory := k.territory.behind rest })
        ⟨⟨h.recorded.sighted, h.recorded.traced⟩, h.known⟩
    · rename_i hc
      exact comesTo_settle h rest hc (frontier.settle hq hc).rooted

/-! ## Whole runs -/

theorem kept_start (t : Track) (ns : List Site) : Kept ⟨start t ns, []⟩ where
  recorded := (watched_start t ns).congr fun v o => by simp [Faces, Met]
  known := by simp [Met]

/-- **Every run of both chronicles comes to the territory after as many units.** -/
theorem comesTo_run (t : Track) (ns : List Site) (n : Nat) :
    ComesTo (fun brief => run brief ⟨start t ns, []⟩ n) (Territory.advance^[n] (start t ns)) := by
  induction n with
  | zero => exact (kept_start t ns).comesTo
  | succ n ih =>
    refine ih.bind fun k same kept => ?_
    rw [Function.iterate_succ_apply', ← same]
    exact comesTo_advance kept (same ▸ (frontier_start t ns).iterate n)

end Chronicle

namespace Territory

/-- **The early stop of walks back loses nothing.**  Take the territory after some steps and any
number of units of the next one.  It is what keeping a chronicle with full walks comes to in as many
units, and what keeping one with brief walks comes to; all these walks end.  At a junction that its
owner went some way to, noted are exactly the arms whose parent it is, each with the origins with
which a cell at or below the arm has made a contact; nothing is noted elsewhere.  From every contact
made the parents lead up to an anchor of the cell's owner, and a full walk from there would find
everything noted. -/
theorem early_stop_loses_nothing (t : Track) (ns : List Site) (bs : List Allowance) (n : Nat) :
    let s := Territory.advance^[n] (Stepwise.after bs (start t ns))
    ∃ (units : Nat) (made : List (Cell × Origin)),
      (∀ brief, Chronicle.run brief ⟨start t ns, []⟩ units = Part.some ⟨s, made⟩) ∧
      (∀ j a o, ⟨a, o⟩ ∈ s.metBeyond j ↔ s.track.isJunction j = true ∧ s.Remote j ∧
        s.parent? a = some j ∧ ∃ v, s.Below a v ∧ (v, o) ∈ made) ∧
      ∀ v o, (v, o) ∈ made → s.walkBack false o v (s.parent? v) = Part.some s ∧
        ∃ r a, s.owners[v]? = some r ∧ s.Below a v ∧ s.parent? a = none ∧
          Origin.Anchored s.origins r.origin a := by
  intro s
  obtain ⟨m, hm⟩ := Stepwise.exists_after_eq_iterate bs (start t ns)
  have reached : s = Territory.advance^[n + m] (start t ns) := by
    rw [Function.iterate_add_apply]
    exact congrArg _ hm
  obtain ⟨⟨u, made⟩, runs, rfl, kept⟩ := Chronicle.comesTo_run t ns (n + m)
  rw [reached]
  have frontier := (frontier_start t ns).iterate (n + m)
  refine ⟨n + m, made, runs, fun j a o => ?noted, fun v o contact => ?walks⟩
  case noted => exact kept.recorded.traced.mem_metBeyond frontier.rooted kept.known
  case walks =>
    obtain ⟨r, owned⟩ := mem_iff_lookup.1 (kept.known v o contact)
    obtain ⟨a, below, root, anchored⟩ := frontier.exists_root owned
    exact ⟨kept.recorded.traced.walkBack_again frontier.rooted owned contact false,
      r, a, owned, below, root, anchored⟩

/-- A line with two stubs, and a column beside its fifth cell.  There the first node meets the
second one on two sides at once, so that the second walk back over the two junctions stops at the
nearer one; the farther one has noted its arm all the same. -/
theorem early_stop_loses_nothing_two_stubs :
    let cell (x z : Int32) : Cell := ⟨x, 64, z⟩
    let cells := ([0, 1, 2, 3, 4, 5, 6, 7, 8].map fun x => cell x 0) ++
      ([1, 2, 3, 4].map fun z => cell 4 z) ++ [cell 1 1, cell 2 (-1)]
    let track := cells.foldl Track.insert .empty
    let site (name : String) (anchors : List Cell) : Site :=
      ⟨⟨⟨name⟩, .station, ⟨0, 65, 0⟩, none, none⟩, anchors⟩
    let ns := [site "A" [cell 0 0], site "B" [cell 8 0, cell 4 4]]
    let s := Territory.advance^[20] (Stepwise.after [.units 5] (start track ns))
    ∃ (units : Nat) (made : List (Cell × Origin)),
      Chronicle.run false ⟨start track ns, []⟩ units = Part.some ⟨s, made⟩ ∧
      Chronicle.run true ⟨start track ns, []⟩ units = Part.some ⟨s, made⟩ ∧
      s.parent? (cell 2 0) = some (cell 1 0) ∧
      ∃ v, s.Below (cell 2 0) v ∧ (v, ⟨⟨"B"⟩, 0⟩) ∈ made := by
  intro cell cells track site ns s
  have noted : ⟨cell 2 0, ⟨⟨"B"⟩, 0⟩⟩ ∈ s.metBeyond (cell 1 0) := by decide +kernel
  obtain ⟨units, made, runs, records, -⟩ := early_stop_loses_nothing track ns [.units 5] 20
  obtain ⟨-, -, link, below⟩ := (records (cell 1 0) (cell 2 0) ⟨⟨"B"⟩, 0⟩).1 noted
  exact ⟨units, made, runs false, runs true, link, below⟩

end Territory

end Signalbox
