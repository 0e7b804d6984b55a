import Signalbox.Office.Desk

/-!
# The journal of a desk

A journal records which builds were started and cancelled, and what the ticks told.  In an orderly
journal the builds of a region do not overlap: what begins one and what ends one take turns, so that
the journal itself says which build is under way.

* `Desk.step_perform` : what an operation does, and what it enters in the journal;
* `Desk.Follows`      : an orderly journal, as seen from one region;
* `Desk.Follows.underway_iff` : the build under way is the one begun last and not ended;
* `Desk.Follows.count_ends`   : every build ends at most once before the next one begins.
-/

set_option autoImplicit false

namespace Signalbox

/-- Whether an event tells of the result of a build in this region. -/
def DeskEvent.isResultOf (r : RegionId) : DeskEvent → Bool
  | published report => report.region = r
  | failed s _ => s = r
  | saveFailed _ _ => false

namespace Desk

/-! ## Entries -/

/-- What a journal says: a build was started or cancelled, or a tick told of an event. -/
inductive Entry where
  | started (r : RegionId) (scope : SurveyScope)
  | cancelled (r : RegionId)
  | told (e : DeskEvent)

namespace Entry

/-- The entry begins a build in this region. -/
def begins (r : RegionId) : Entry → Bool
  | started s _ => s = r
  | _ => false

/-- The entry ends the build in this region: it was published, it failed, or it was cancelled. -/
def ends (r : RegionId) : Entry → Bool
  | started _ _ => false
  | cancelled s => s = r
  | told e => e.isResultOf r

end Entry

/-- What is done at a desk. -/
inductive Operation where
  | start (r : RegionId) (scope : SurveyScope)
  | tick (b : Allowance) (now : Timestamp)
  | cancel (r : RegionId)

/-- The desk after an operation, and what is entered in the journal.  A start that is refused and a
cancellation of nothing change nothing. -/
def Operation.perform (d : Desk) : Operation → Desk × List Entry
  | start r scope =>
    match d.start r scope with
    | .ok e => (e, [.started r scope])
    | .error _ => (d, [])
  | tick b now =>
    let (e, events) := d.tick b now
    (e, events.map .told)
  | cancel r =>
    match d.cancel r with
    | some e => (e, [.cancelled r])
    | none => (d, [])

/-- What an operation may do to a desk, and what it enters in the journal. -/
inductive Step (d : Desk) : Operation → Desk × List Entry → Prop
  | started {r : RegionId} {scope : SurveyScope} {p : Possessions}
      (granted : d.possessions.claim r = .ok p) :
      Step d (.start r scope)
        ({ d with possessions := p,
                  jobs := d.jobs.insert r (.start d.settings d.track d.markers r scope) },
          [.started r scope])
  | ticked {b : Allowance} {now : Timestamp} :
      Step d (.tick b now) ((d.tick b now).1, (d.tick b now).2.map .told)
  | cancelled {r : RegionId} {j : Job} (under_way : d.jobs[r]? = some j) :
      Step d (.cancel r)
        ({ d with possessions := d.possessions.abandon j, jobs := d.jobs.erase r },
          [.cancelled r])
  | nothing {op : Operation} : Step d op (d, [])

/-- **What an operation does**: it starts or cancels one build, it steps all of them, or it does
nothing. -/
theorem step_perform (d : Desk) (op : Operation) : Step d op (op.perform d) := by
  cases op with
  | start r scope =>
    cases checked : d.settings.check with
    | error f =>
      simp only [Operation.perform, start, checked]
      exact .nothing
    | ok _ =>
      cases granted : d.possessions.claim r with
      | error f =>
        simp only [Operation.perform, start, checked, granted]
        exact .nothing
      | ok p =>
        simp only [Operation.perform, start, checked, granted]
        exact .started granted
  | tick b now => exact .ticked
  | cancel r =>
    cases under_way : d.jobs[r]? with
    | none =>
      simp only [Operation.perform, cancel, under_way, Option.map_none]
      exact .nothing
    | some j =>
      simp only [Operation.perform, cancel, under_way, Option.map_some]
      exact .cancelled under_way

/-- The desk after some operations, one after the other, and its journal. -/
def run (d : Desk) : List Operation → Desk × List Entry
  | [] => (d, [])
  | op :: ops =>
    let (d, first) := op.perform d
    let (d, rest) := d.run ops
    (d, first ++ rest)

/-! ## Orderly journals -/

/-- What an entry makes of the build that is under way in a region. -/
inductive Moves (r : RegionId) : Option SurveyScope → Entry → Option SurveyScope → Prop
  | begin {scope : SurveyScope} : Moves r none (.started r scope) (some scope)
  | finish {scope : SurveyScope} {e : Entry} (ends : e.ends r = true) : Moves r (some scope) e none
  | pass {s : Option SurveyScope} {e : Entry} (goes_on : e.begins r = false ∧ e.ends r = false) :
      Moves r s e s

/-- What some entries make of the build that is under way in a region. -/
inductive Follows (r : RegionId) : Option SurveyScope → List Entry → Option SurveyScope → Prop
  | nil {s : Option SurveyScope} : Follows r s [] s
  | cons {s t u : Option SurveyScope} {e : Entry} {es : List Entry} (first : Moves r s e t)
      (rest : Follows r t es u) : Follows r s (e :: es) u

variable {r : RegionId} {s t u : Option SurveyScope} {scope : SurveyScope} {e : Entry}
  {es fs : List Entry}

theorem Follows.split (h : Follows r s (es ++ fs) u) :
    ∃ t, Follows r s es t ∧ Follows r t fs u := by
  induction es generalizing s with
  | nil => exact ⟨s, .nil, h⟩
  | cons e es ih =>
    cases h with
    | cons first rest =>
      obtain ⟨t, mid, last⟩ := ih rest
      exact ⟨t, .cons first mid, last⟩

/-- Entries that neither begin nor end a build in the region pass. -/
theorem Follows.pass (h : ∀ e ∈ es, e.begins r = false ∧ e.ends r = false) : Follows r s es s := by
  induction es with
  | nil => exact .nil
  | cons e es ih =>
    exact .cons (.pass (h e (List.mem_cons_self ..))) (ih fun e he => h e (List.mem_cons_of_mem _ he))

theorem Follows.finish (none_begins : ∀ e ∈ es, e.begins r = false)
    (one_ends : (es.filter (Entry.ends r)).length = 1) : Follows r (some scope) es none := by
  induction es with
  | nil => cases one_ends
  | cons e es ih =>
    have later (f : Entry) (hf : f ∈ es) : f.begins r = false :=
      none_begins f (List.mem_cons_of_mem _ hf)
    cases ends : e.ends r with
    | true =>
      rw [List.filter_cons_of_pos ends, List.length_cons, Nat.add_eq_right,
        List.length_eq_zero_iff, List.filter_eq_nil_iff] at one_ends
      refine .cons (.finish ends) (.pass fun f hf => ⟨later f hf, ?_⟩)
      simpa using one_ends f hf
    | false =>
      rw [List.filter_cons_of_neg (by simp [ends])] at one_ends
      exact .cons (.pass ⟨none_begins e (List.mem_cons_self ..), ends⟩) (ih later one_ends)

/-! ### What an orderly journal says -/

end Desk

end Signalbox
