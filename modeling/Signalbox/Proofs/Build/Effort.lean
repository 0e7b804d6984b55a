import Signalbox.Proofs.Build.Deadline
import Signalbox.Proofs.Build.LifeCycle
import Signalbox.Proofs.Survey.Effort
import Signalbox.Proofs.Survey.Findings
import Signalbox.Proofs.Territory.Effort

/-!
# How much work a build takes

The units of a build are those of its survey and, unless that has nowhere to start, those of its
territory, and both are known from the layout.  A step without a deadline uses what it may until the
job is done; a step with any deadline uses a unit or ends the job, so that no job is stepped more
often than it has units.

* `Job.Effort`            : the units of a build, from its markers and its track;
* `Job.effort_start`      : these are the units that a job takes;
* `Job.processed_after`   : the units that a job reports without deadlines;
* `Job.isDone_after`      : how many steps end a job;
* `Job.phase_turn_ne`     : a turn that uses nothing goes on to the next phase.
-/

set_option autoImplicit false

namespace Signalbox

namespace Stepwise

variable {σ : Type} [Stepwise σ] {b : Allowance} {used : Nat} {s : σ}

theorem fst_stepFrom_le (h : used ≤ b.maxUnits) : (stepFrom b used s).1 ≤ b.maxUnits := by
  fun_induction stepFrom b used s with
  | case1 used s ha ih => exact ih (Allowance.lt_of_allows ha.1)
  | case2 used s ha => exact h

/-- A step that may use anything uses something, unless the work is done. -/
theorem fst_step_pos (hb : 0 < b.maxUnits) (hs : isDone s = false) : 0 < (step b s).1 := by
  have allowed : b.allows 0 = true := by simp [Allowance.allows_zero, hb]
  rw [step, stepFrom, if_pos ⟨allowed, hs⟩]
  exact le_fst_stepFrom b 1 (advance s)

end Stepwise

/-- The cells on which the markers that count are anchored. -/
def Marker.anchorCells (t : Host) (radius : UInt32) (known : List Marker) : Set Cell :=
  {a | ∃ m, Marker.chosen? known m.id = some m ∧ a ∈ t.nearest m.pos radius}

namespace Job

variable {j : Job} {b : Allowance} {bs : List Allowance} {used : Nat}

/-! ## Turns and steps -/

theorem used_turn_le (b : Allowance) (j : Job) : (j.turn b).used ≤ b.maxUnits := by
  obtain ⟨region, settings, track, stage, processed⟩ := j
  cases stage with
  | surveying s => exact Stepwise.fst_stepFrom_le (Nat.zero_le _)
  | exploring found report s => exact Stepwise.fst_stepFrom_le (Nat.zero_le _)
  | finished => exact Nat.zero_le _
  | failed => exact Nat.zero_le _
  | cancelled => exact Nat.zero_le _

/-- A turn that uses nothing although it may finds its stage through. -/
theorem stageCost_of_idle (hb : 0 < b.maxUnits) (idle : (j.turn b).used = 0) : j.stageCost = 0 := by
  obtain ⟨region, settings, track, stage, processed⟩ := j
  have through {σ : Type} [Stepwise σ] {s : σ} (h : (Stepwise.step b s).1 = 0) :
      Stepwise.cost s = 0 := by
    rw [Stepwise.cost_eq_zero_iff]
    cases hs : Stepwise.isDone s with
    | true => rfl
    | false => exact absurd h (Nat.ne_of_gt (Stepwise.fst_step_pos hb hs))
  cases stage with
  | surveying s => exact through idle
  | exploring found report s => exact through idle
  | finished => rfl
  | failed => rfl
  | cancelled => rfl

theorem stagesLeft_of_phase {k : Job} (h : k.phase = j.phase) : k.stagesLeft = j.stagesLeft := by
  obtain ⟨region, settings, track, stage, processed⟩ := j
  obtain ⟨region', settings', track', stage', processed'⟩ := k
  cases stage <;> cases stage' <;> first | rfl | cases h

/-- **A turn that uses nothing goes on to the next phase**, unless the job is done or may use
nothing. -/
theorem phase_turn_ne (hb : 0 < b.maxUnits) (busy : j.isDone = false)
    (idle : (j.turn b).used = 0) : (j.turn b).job.phase ≠ j.phase := by
  intro same
  have through : (j.turn b).used = j.stageCost := idle.trans (stageCost_of_idle hb idle).symm
  have less := stagesLeft_turn_lt busy through
  rw [stagesLeft_of_phase same] at less
  exact Nat.lt_irrefl _ less

theorem le_used_stepFrom (b : Allowance) (used : Nat) (j : Job) : used ≤ (stepFrom b used j).used := by
  fun_induction stepFrom b used j with
  | case1 used j h t rest ih => exact Nat.le_trans (Nat.le_add_right used t.used) ih
  | case2 used j h => exact Nat.le_refl used

theorem used_stepFrom_le (h : used ≤ b.maxUnits) : (stepFrom b used j).used ≤ b.maxUnits := by
  fun_induction stepFrom b used j with
  | case1 used j ha t rest ih =>
    have turned : t.used ≤ b.maxUnits - used := used_turn_le (b.remaining used) j
    exact ih (by omega)
  | case2 used j ha => exact h

theorem isDone_stepFrom_of_idle (allowed : b.allows used = true)
    (idle : (stepFrom b used j).used = used) : (stepFrom b used j).job.isDone = true := by
  fun_induction stepFrom b used j with
  | case1 used j ha t rest ih =>
    have later := le_used_stepFrom b (used + t.used) t.job
    have same : (stepFrom b (used + t.used) t.job).used = used := idle
    have nothing : t.used = 0 := by omega
    exact ih (by rwa [nothing]) (by omega)
  | case2 used j ha =>
    cases hd : j.isDone with
    | true => rfl
    | false => exact absurd ⟨hd, allowed⟩ ha

/-- **Every step that may use anything ends the job or brings it nearer to its end.** -/
theorem isDone_or_cost_lt (hb : 0 < b.maxUnits) (j : Job) :
    (j.step b).job.isDone = true ∨ (j.step b).job.cost < j.cost := by
  have spent := cost_step b j
  by_cases idle : (j.step b).used = 0
  · exact Or.inl (isDone_stepFrom_of_idle (by simp [Allowance.allows_zero, hb]) idle)
  · exact Or.inr (by omega)

/-- **A step without a deadline uses what it may until the job is done.** -/
theorem used_step_of_deadline_none (hb : b.deadline = none) (j : Job) :
    (j.step b).used = min b.maxUnits j.cost := by
  have spent := cost_step b j
  have most : (j.step b).used ≤ b.maxUnits := used_stepFrom_le (Nat.zero_le _)
  rcases stepFrom_of_deadline_none hb 0 j with done | all
  · have nothing : (j.step b).job.cost = 0 := cost_of_isDone done
    omega
  · have all : b.maxUnits ≤ (j.step b).used := all
    omega

/-! ## Schedules -/

/-- **The units that a job reports without deadlines** are all that it was given, as long as it has
that many. -/
theorem processed_after (undated : ∀ b ∈ bs, b.deadline = none) (j : Job) :
    (j.after bs).processed = j.processed + min (bs.map Allowance.maxUnits).sum j.cost := by
  induction bs generalizing j with
  | nil =>
    show j.processed = _
    simp
  | cons b bs ih =>
    obtain ⟨first, later⟩ := List.forall_mem_cons.1 undated
    have used := used_step_of_deadline_none first j
    have spent := cost_step b j
    have told := processed_step b j
    show ((j.step b).job.after bs).processed = _
    rw [ih later, told, List.map_cons, List.sum_cons]
    omega

theorem isDone_after_of_isDone (h : j.isDone = true) (bs : List Allowance) :
    (j.after bs).isDone = true := by
  induction bs with
  | nil => exact h
  | cons b bs ih =>
    have same : (j.step b).job = j := by rw [step_of_isDone h]
    show ((j.step b).job.after bs).isDone = true
    rw [same]
    exact ih

/-- **More steps than units end a job**, whatever the deadlines, if every step may use anything. -/
theorem isDone_after (granted : ∀ b ∈ bs, 0 < b.maxUnits) (long : j.cost < bs.length) :
    (j.after bs).isDone = true := by
  induction bs generalizing j with
  | nil => exact absurd long (Nat.not_lt_zero _)
  | cons b bs ih =>
    obtain ⟨first, later⟩ := List.forall_mem_cons.1 granted
    show ((j.step b).job.after bs).isDone = true
    rcases isDone_or_cost_lt first j with done | less
    · exact isDone_after_of_isDone done bs
    · rw [List.length_cons] at long
      exact ih later (by omega)

theorem isDone_run (hb : 0 < b.maxUnits) (hj : j.isDone = false) :
    ∃ last, (j.run b).getLast? = some last ∧ last.job.isDone = true := by
  fun_induction run b j with
  | case1 j h ih =>
    cases hd : (j.step b).job.isDone with
    | true =>
      have ended : run b (j.step b).job = [] := by
        rw [run, if_neg]
        simp [hd]
      exact ⟨j.step b, by rw [ended]; rfl, hd⟩
    | false =>
      obtain ⟨last, hl, done⟩ := ih hd
      exact ⟨last, by rw [List.getLast?_cons, hl]; rfl, done⟩
  | case2 j h => exact absurd ⟨hj, hb⟩ h

/-! ## The units of a build -/

theorem cost_exploring {found : List Site} {report : SurveyReport} {s : Territory}
    (h : j.stage = .exploring found report s) : j.cost = Stepwise.cost s := by
  have busy : j.isDone = false := by simp [isDone, phase, h, JobPhase.isTerminal]
  have stage : j.ripe.stage = .exploring found report (Stepwise.finished s) := by simp [ripe, h]
  have through : (Stepwise.finished s).isDone = true := Stepwise.isDone_finished s
  have handed : j.ripe.handOver = j.ripe.closeTerritory found report (Stepwise.finished s) := by
    simp [handOver, stage, through]
  have staged : j.stageCost = Stepwise.cost s := by simp [stageCost, h]
  rw [cost_of_not_isDone busy, handed, cost_of_isDone (isDone_closeTerritory _ _ _ _), staged,
    Nat.add_zero]

theorem cost_surveying {s : Survey} (h : j.stage = .surveying s) :
    j.cost = Stepwise.cost s +
      match (Stepwise.finished s).outcome with
      | .noStart _ => 0
      | .nodes found _ => Stepwise.cost (Territory.start j.host.laid found) := by
  have busy : j.isDone = false := by simp [isDone, phase, h, JobPhase.isTerminal]
  have stage : j.ripe.stage = .surveying (Stepwise.finished s) := by simp [ripe, h]
  have through : (Stepwise.finished s).isDone = true := Stepwise.isDone_finished s
  have track : j.ripe.host = j.host := by simp [ripe, h]
  have handed : j.ripe.handOver = j.ripe.closeSurvey (Stepwise.finished s).outcome := by
    simp [handOver, stage, through]
  have staged : j.stageCost = Stepwise.cost s := by simp [stageCost, h]
  rw [cost_of_not_isDone busy, handed, staged]
  congr 1
  unfold closeSurvey
  cases (Stepwise.finished s).outcome with
  | noStart report =>
    have failed : (j.ripe.fail (.noStartCell j.ripe.region)).1.isDone = true := rfl
    exact cost_of_isDone failed
  | nodes found report =>
    rw [← track]
    exact cost_exploring (j := j.ripe.explore found report) rfl

/-- The units of a build of a region.  With a unit for every marker of the region and for every node
that they declare, territory takes one for every cell from which it is taken and one for every pair of
neighbouring cells that can be reached from one; a trace adds one for every cell that it floods. -/
inductive Effort (c : BuildSettings) (t : Host) (ms : MarkerRoll) (r : RegionId) :
    SurveyScope → Nat → Prop
  | whole {anchors : Set Cell}
      (anchored : anchors = Marker.anchorCells t c.anchorRadius (ms.markers r)) :
    Effort c t ms r .whole ((ms.markers r).length + 1 + (Marker.ids (ms.markers r)).length +
      anchors.ncard + (t.laid.pairsFrom anchors).ncard)
  | around {seeds : Seeds} {starts : List Cell} {o : StartOrigin} {anchors : Set Cell}
      (chosen : (Trace.mustered c t ms r seeds).startCells? = some (starts, o))
      (anchored : anchors =
        Marker.anchorCells t c.anchorRadius (Trace.declared ms r seeds) ∩ {a | t.laid.Traced starts a}) :
    Effort c t ms r (.around seeds) ((ms.markers r).length + 4 + {d | t.laid.Traced starts d}.ncard +
      (Marker.ids (Trace.declared ms r seeds)).length + anchors.ncard + (t.laid.pairsFrom anchors).ncard)
  | nowhere {seeds : Seeds} (none : (Trace.mustered c t ms r seeds).startCells? = none) :
    Effort c t ms r (.around seeds) ((ms.markers r).length + 2)

variable (c : BuildSettings) (t : Host) (ms : MarkerRoll) (r : RegionId)

theorem anchors_sites : {a | ∃ n ∈ Sweep.sites c t ms r, a ∈ n.anchors} =
    Marker.anchorCells t c.anchorRadius (ms.markers r) := by
  ext a
  simp only [Marker.anchorCells, Set.mem_ofPred_eq, Sweep.mem_sites]
  constructor
  · rintro ⟨n, ⟨m, chosen, rfl⟩, ha⟩
    exact ⟨m, chosen, ha⟩
  · rintro ⟨m, chosen, ha⟩
    exact ⟨_, ⟨m, chosen, rfl⟩, ha⟩

theorem anchors_sitesAmong {radius : UInt32} {known : List Marker} {cells : Std.ExtTreeSet Cell} :
    {a | ∃ n ∈ Trace.sitesAmong t radius cells known, a ∈ n.anchors} =
      Marker.anchorCells t radius known ∩ {a | a ∈ cells} := by
  ext a
  simp only [Marker.anchorCells, Set.mem_inter_iff, Set.mem_ofPred_eq, Trace.mem_sitesAmong,
    Marker.siteAmong?_eq_some_iff]
  constructor
  · rintro ⟨n, ⟨m, chosen, -, anchors, -⟩, ha⟩
    rw [anchors, List.mem_filter, decide_eq_true_eq] at ha
    exact ⟨⟨m, chosen, ha.1⟩, ha.2⟩
  · rintro ⟨⟨m, chosen, near⟩, flooded⟩
    have stands : a ∈ (t.nearest m.pos radius).filter fun d => decide (d ∈ cells) :=
      List.mem_filter.2 ⟨near, decide_eq_true flooded⟩
    exact ⟨⟨m.toNode, _⟩, ⟨m, chosen, rfl, rfl, List.ne_nil_of_mem stands⟩, stands⟩

theorem cost_sitesAmong (t : Host) (radius : UInt32) (cells : Std.ExtTreeSet Cell)
    (known : List Marker) :
    Stepwise.cost (Territory.start t.laid (Trace.sitesAmong t radius cells known)) =
      (Marker.anchorCells t radius known ∩ {a | a ∈ cells}).ncard +
        (t.laid.pairsFrom (Marker.anchorCells t radius known ∩ {a | a ∈ cells})).ncard := by
  have ids : ((Trace.sitesAmong t radius cells known).map Site.id).Nodup :=
    (Roster.nodup_markers (Roster.filed_empty.mergeAll known)).sublist
      (Marker.sublist_ids_siteAmong? _)
  have laid : ∀ n ∈ Trace.sitesAmong t radius cells known, ∀ a ∈ n.anchors, a ∈ t.laid := by
    intro n hn
    obtain ⟨m, -, site⟩ := Trace.mem_sitesAmong.1 hn
    exact (Marker.siteAmong?_spec site).2
  rw [Territory.cost_start ids laid, anchors_sitesAmong]

/-- **The units that a build takes** are known from its markers and its track. -/
theorem effort_start (scope : SurveyScope) :
    Effort c t ms r scope (start c t ms r scope).cost := by
  rw [cost_surveying (s := Survey.start c t ms r scope) rfl]
  cases scope with
  | whole =>
    have outcome := outcome_whole c t ms r
    have survey : Stepwise.cost (Survey.start c t ms r .whole) = _ :=
      (Stepwise.cost_map Survey.sweep (fun _ => rfl) (fun _ => rfl) _).trans
        (Sweep.cost_start c t ms r)
    have territory := Territory.cost_start (Sweep.nodup_ids c t ms r) (Sweep.laid_anchors c t ms r)
    rw [outcome, survey]
    show Effort c t ms r .whole (_ + Stepwise.cost (Territory.start t.laid _))
    rw [territory, anchors_sites, ← Nat.add_assoc]
    exact .whole rfl
  | around seeds =>
    have surveyed : Stepwise.finished (Survey.start c t ms r (.around seeds)) =
        .trace (Stepwise.finished (Trace.start c t ms r seeds)) := Survey.finished_trace _
    have survey : Stepwise.cost (Survey.start c t ms r (.around seeds)) =
        Stepwise.cost (Trace.start c t ms r seeds) :=
      Stepwise.cost_map Survey.trace (fun _ => rfl) (fun _ => rfl) _
    cases chosen : (Trace.mustered c t ms r seeds).startCells? with
    | none =>
      rw [survey, Trace.cost_start_of_nowhere chosen, surveyed, Survey.outcome,
        Trace.finished_stranded chosen]
      exact .nowhere chosen
    | some begun =>
      obtain ⟨starts, o⟩ := begun
      obtain ⟨traced, outcome⟩ := Trace.finished_start chosen
      have reached : {a | a ∈ (Stepwise.finished (Trace.start c t ms r seeds)).flood.reached} =
          {a | t.laid.Traced starts a} := Set.ext traced
      rw [Trace.roster_mustered, ← Trace.sitesAmong] at outcome
      have territory := cost_sitesAmong t c.anchorRadius
        (Stepwise.finished (Trace.start c t ms r seeds)).flood.reached (Trace.declared ms r seeds)
      rw [survey, Trace.cost_start chosen, surveyed, Survey.outcome, outcome]
      show Effort c t ms r (.around seeds) (_ + Stepwise.cost (Territory.start t.laid _))
      rw [territory, reached, ← Nat.add_assoc]
      exact .around chosen rfl

end Job

end Signalbox
