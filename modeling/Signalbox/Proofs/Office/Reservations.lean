import Signalbox.Office.Traffic
import Signalbox.Proofs.Interlocking.Holds
import Signalbox.Proofs.Interlocking.Needs

/-!
# Reserved routes

Whoever has reserved a route holds every edge of it, and every junction under a switcher at the end
of one of its edges, until the route is given up.  Networks come and go meanwhile.  An edge is named
by its ends and a junction by its cell, so that routes over different networks of a region still
contend for the same resources.

* `Service.Stands`                 : a reservation that was granted and not yet given up;
* `Service.Stands.heldBy`          : everything that a standing reservation needs is held;
* `Service.reservations_exclusive` : standing reservations of different holders have neither an edge
  nor a switcher in common.
-/

set_option autoImplicit false

namespace Signalbox

/-! ## Asking for a route -/

namespace Traffic

variable {t u : Traffic} {a : Atlas} {r : RegionId} {who : HolderId} {path : Route}
  {now : Timestamp} {d : Decision}

theorem ledger_setLedger (t : Traffic) (r : RegionId) (l : Ledger) (q : RegionId) :
    (t.setLedger r l).ledger q = if r = q then l else t.ledger q := by
  unfold ledger setLedger
  rw [lookup_insert]
  split <;> rfl

/-- **What becomes of a request that gets an answer**: it was resolved on the latest network, and
the ledger of the region was asked for all the resources of the route. -/
theorem reserve_eq_ok_iff :
    t.reserve a r who path now = .ok (u, d) ↔
      ∃ g rs, a.network? r = some g ∧ g.resourcesOfRoute path = .ok rs ∧
        let q : Request := { holder := who, now, resources := rs }
        u = t.setLedger r ((t.ledger r).acquire q).1 ∧ d = (t.ledger r).decide q := by
  constructor
  · intro h
    unfold reserve resources at h
    split at h
    · cases h
    rename_i rs found
    split at found
    · cases found
    rename_i g latest
    split at found
    · cases found
    rename_i rs resolved
    cases found
    cases h
    exact ⟨g, rs, latest, resolved, rfl, rfl⟩
  · rintro ⟨g, rs, latest, resolved, rfl, rfl⟩
    have found : resources a r path = .ok rs := by simp only [resources, latest, resolved]
    simp only [reserve, found]
    rfl

theorem ledger_of_denied (h : t.reserve a r who path now = .ok (u, d)) (denied : d.allowed = false)
    (q : RegionId) : u.ledger q = t.ledger q := by
  obtain ⟨g, rs, -, -, rfl, rfl⟩ := reserve_eq_ok_iff.1 h
  rw [ledger_setLedger]
  split
  · rename_i region
    subst region
    exact Ledger.acquire_of_denied denied
  · rfl

end Traffic

/-! ## Reservations -/

/-- The traffic of a railway, and the atlas that it runs by. -/
structure Service where
  atlas : Atlas
  traffic : Traffic

/-- A route that was reserved, and the network on which it was resolved. -/
structure Reservation where
  region : RegionId
  holder : HolderId
  path : Route
  network : Network

/-- The route has an edge that ends at a switcher at this cell. -/
def Reservation.Crosses (v : Reservation) (c : Cell) : Prop :=
  ∃ k ∈ v.path.edges, ∃ e, v.network.edgeWith? k = some e ∧ v.network.SwitchesAt e c

namespace Service

/-- What is done in a railway: networks are published and forgotten, routes are reserved and given
up, and what is over is purged. -/
inductive Operation where
  | publish (b : BuiltRegion) (now : Timestamp)
  | forget (r : RegionId)
  | reserve (r : RegionId) (who : HolderId) (path : Route) (now : Timestamp)
  | releaseAll (r : RegionId) (who : HolderId) (now : Timestamp)
  | purge (r : RegionId) (now : Timestamp)

namespace Operation

/-- The railway after an operation. -/
def perform (s : Service) : Operation → Service
  | publish b now => { s with atlas := (s.atlas.publish b now).1 }
  | forget r => { s with atlas := s.atlas.remove r }
  | reserve r who path now =>
    match s.traffic.reserve s.atlas r who path now with
    | .ok (traffic, _) => { s with traffic }
    | .error _ => s
  | releaseAll r who now =>
    { s with traffic := s.traffic.setLedger r ((s.traffic.ledger r).releaseAll who now).1 }
  | purge r now => { s with traffic := s.traffic.setLedger r ((s.traffic.ledger r).purge now).1 }

/-- The operation grants a reservation on the latest network of its region. -/
inductive Grants (s : Service) : Operation → Reservation → Prop
  | reserve {v : Reservation} {now : Timestamp} {t : Traffic} {d : Decision}
      (latest : s.atlas.network? v.region = some v.network)
      (answered : s.traffic.reserve s.atlas v.region v.holder v.path now = .ok (t, d))
      (allowed : d.allowed = true) : Grants s (reserve v.region v.holder v.path now) v

end Operation

/-- The railway after some operations, one after the other. -/
def after (s : Service) (ops : List Operation) : Service := ops.foldl Operation.perform s

theorem after_append (s : Service) (ops more : List Operation) :
    s.after (ops ++ more) = (s.after ops).after more := List.foldl_append

/-- A reservation that was granted in a history, and that its holder has not given up since. -/
def Stands (s : Service) (ops : List Operation) (v : Reservation) : Prop :=
  ∃ earlier op later, ops = earlier ++ op :: later ∧ op.Grants (s.after earlier) v ∧
    ∀ t, .releaseAll v.region v.holder t ∉ later

variable {s : Service} {r : RegionId} {who : HolderId} {x : Resource}

/-! ### What is held stays held -/

/-- The resources that a reservation needs. -/
def Needs (v : Reservation) (x : Resource) : Prop :=
  ∃ rs, v.network.resourcesOfRoute v.path = .ok rs ∧ x ∈ rs

theorem heldBy_of_grants {op : Operation} {v : Reservation} (h : op.Grants s v) (hx : Needs v x) :
    ((op.perform s).traffic.ledger v.region).HeldBy v.holder x := by
  obtain ⟨latest, answered, allowed⟩ := h
  rename_i now t d
  obtain ⟨g, rs, current, resolved, rfl, rfl⟩ := Traffic.reserve_eq_ok_iff.1 answered
  obtain ⟨needed, resolved', hx⟩ := hx
  rw [latest] at current
  cases current
  rw [resolved] at resolved'
  cases resolved'
  have held := Ledger.heldBy_of_allowed allowed hx
  simp only [Operation.perform, answered, Traffic.ledger_setLedger, if_true]
  exact held

theorem heldBy_setLedger {t : Traffic} {q : RegionId} {l : Ledger}
    (h : (t.ledger r).HeldBy who x) (here : q = r → (t.ledger q).HeldBy who x → l.HeldBy who x) :
    ((t.setLedger q l).ledger r).HeldBy who x := by
  rw [Traffic.ledger_setLedger]
  split
  · rename_i region
    subst region
    exact here rfl h
  · exact h

/-- **An operation leaves held what is held**, unless its holder gives it up. -/
theorem heldBy_perform (h : (s.traffic.ledger r).HeldBy who x) {op : Operation}
    (kept : ∀ t, op ≠ .releaseAll r who t) : ((op.perform s).traffic.ledger r).HeldBy who x := by
  cases op with
  | publish b now => exact h
  | forget q => exact h
  | reserve q asker path now =>
    unfold Operation.perform
    simp only
    split
    · rename_i u d answered
      obtain ⟨g, rs, -, -, rfl, rfl⟩ := Traffic.reserve_eq_ok_iff.1 answered
      exact heldBy_setLedger h fun _ held => held.acquire _
    · exact h
  | releaseAll q leaver now =>
    refine heldBy_setLedger h fun region held => held.releaseAll ?_ now
    rintro rfl
    exact kept now (by rw [region])
  | purge q now => exact heldBy_setLedger h fun _ held => held.purge now

/-- What is held stays held until its holder gives it up. -/
theorem heldBy_after {ops : List Operation} (h : (s.traffic.ledger r).HeldBy who x)
    (kept : ∀ t, .releaseAll r who t ∉ ops) : ((s.after ops).traffic.ledger r).HeldBy who x := by
  induction ops generalizing s with
  | nil => exact h
  | cons op ops ih =>
    have first : ((op.perform s).traffic.ledger r).HeldBy who x := by
      apply heldBy_perform h
      rintro t rfl
      exact kept t (List.mem_cons_self ..)
    exact ih first fun t later => kept t (List.mem_cons_of_mem _ later)

/-- **Everything that a standing reservation needs is held** by its holder. -/
theorem Stands.heldBy {ops : List Operation} {v : Reservation} (h : s.Stands ops v)
    (hx : Needs v x) : ((s.after ops).traffic.ledger v.region).HeldBy v.holder x := by
  obtain ⟨earlier, op, later, rfl, granted, kept⟩ := h
  have held : ((s.after (earlier ++ [op])).traffic.ledger v.region).HeldBy v.holder x := by
    rw [after_append]
    exact heldBy_of_grants granted hx
  rw [List.append_cons, after_append]
  exact heldBy_after held kept

/-! ### What a standing reservation needs -/

theorem Stands.resolved {ops : List Operation} {v : Reservation} (h : s.Stands ops v) :
    ∃ rs, v.network.resourcesOfRoute v.path = .ok rs := by
  obtain ⟨earlier, op, later, rfl, ⟨latest, answered, -⟩, -⟩ := h
  obtain ⟨g, rs, current, resolved, -⟩ := Traffic.reserve_eq_ok_iff.1 answered
  rw [latest] at current
  cases current
  exact ⟨rs, resolved⟩

theorem Stands.needs_edge {ops : List Operation} {v : Reservation} (h : s.Stands ops v) {k : Ends}
    (hk : k ∈ v.path.edges) : Needs v (.ofEnds k) := by
  obtain ⟨rs, resolved⟩ := h.resolved
  exact ⟨rs, resolved, Network.ofEnds_mem_resourcesOfRoute resolved hk⟩

theorem Stands.needs_junction {ops : List Operation} {v : Reservation} (h : s.Stands ops v)
    {c : Cell} (hc : v.Crosses c) : Needs v (.ofJunction c) := by
  obtain ⟨rs, resolved⟩ := h.resolved
  obtain ⟨k, hk, e, found, switches⟩ := hc
  exact ⟨rs, resolved, (Network.mem_resourcesOfRoute resolved).2
    ⟨k, hk, e, found, Network.ofJunction_mem_resourcesOfEdge switches⟩⟩

/-- What two standing reservations in a region both need makes their holders one. -/
theorem Stands.holder_eq {ops : List Operation} {v w : Reservation} (hv : s.Stands ops v)
    (hw : s.Stands ops w) (region : v.region = w.region) (nv : Needs v x) (nw : Needs w x) :
    v.holder = w.holder := by
  have held := hv.heldBy nv
  rw [region] at held
  exact held.unique (hw.heldBy nw)

/-! ### Exclusion -/

/-- **Reserved routes stay exclusive.**  Whatever was published, reserved and given up, the standing
reservations of different holders in a region have no edge in common, nor a cell at which each of
them, on the network where it was resolved, comes to a switcher.  A request that cannot be resolved
changes nothing, and a denial leaves every ledger as it was. -/
theorem reservations_exclusive (s : Service) (ops : List Operation) :
    (∀ v w, s.Stands ops v → s.Stands ops w → v.region = w.region → v.holder ≠ w.holder →
      (∀ k ∈ v.path.edges, k ∉ w.path.edges) ∧ ∀ c, v.Crosses c → ¬ w.Crosses c) ∧
    ∀ (r : RegionId) (who : HolderId) (path : Route) (now : Timestamp),
      let final := s.after ops
      let answer := final.traffic.reserve final.atlas r who path now
      (∀ e, answer = .error e → (Operation.reserve r who path now).perform final = final) ∧
      ∀ t d, answer = .ok (t, d) → d.allowed = false →
        ∀ q, ((Operation.reserve r who path now).perform final).traffic.ledger q =
          final.traffic.ledger q := by
  constructor
  · intro v w hv hw region different
    constructor
    · intro k inv inw
      exact different (hv.holder_eq hw region (hv.needs_edge inv) (hw.needs_edge inw))
    · intro c cv cw
      exact different (hv.holder_eq hw region (hv.needs_junction cv) (hw.needs_junction cw))
  · intro r who path now final answer
    constructor
    · intro e refused
      have refused : final.traffic.reserve final.atlas r who path now = .error e := refused
      simp only [Operation.perform, refused]
    · intro t d denied shut q
      have denied : final.traffic.reserve final.atlas r who path now = .ok (t, d) := denied
      simp only [Operation.perform, denied]
      exact Traffic.ledger_of_denied denied shut q

/-- A train reserves the way to a switcher, and another one, once the switcher has got a new name, a
way elsewhere.  They have no edge in common, and the way beyond the switcher is denied. -/
theorem reservations_exclusive_renamed_switcher :
    let main : RegionId := ⟨"main"⟩
    let node (name : String) (kind : NodeKind) (x : Int32) : Node :=
      { id := ⟨name⟩, kind, pos := ⟨x, 64, 0⟩ }
    let edge (a b : String) : Edge :=
      { source := ⟨a⟩, target := ⟨b⟩, length := 9, speedLimit := ({} : BuildSettings).speedLimit }
    let net (ns : List Node) (es : List Edge) : Network :=
      es.foldl (fun g e => (g.addEdge? e).toOption.getD g) (ns.foldl Network.addNode .empty)
    let publish (g : Network) : Operation :=
      .publish ⟨main, g, [], ⟨0, [], 0, 0, 0, none⟩, 0⟩ ⟨0⟩
    let way (a b : String) : Route := ⟨[⟨a⟩, ⟨b⟩], [.of ⟨a⟩ ⟨b⟩], 9, 9⟩
    let old := net [node "A" .station 0, node "S" .switcher 9] [edge "A" "S"]
    let new := net [node "B" .station 18, node "C" .station 30, node "D" .station 39,
      node "X" .switcher 9] [edge "X" "B", edge "C" "D"]
    let s : Service := ⟨.empty, { settings := {} }⟩
    let ops : List Operation := [publish old, .reserve main ⟨"first"⟩ (way "A" "S") ⟨1⟩,
      publish new, .reserve main ⟨"second"⟩ (way "C" "D") ⟨2⟩]
    let v : Reservation := ⟨main, ⟨"first"⟩, way "A" "S", old⟩
    let w : Reservation := ⟨main, ⟨"second"⟩, way "C" "D", new⟩
    let beyond : Operation := .reserve main ⟨"second"⟩ (way "X" "B") ⟨3⟩
    (s.Stands ops v ∧ s.Stands ops w ∧ ∀ k ∈ v.path.edges, k ∉ w.path.edges) ∧
      ∀ q, (beyond.perform (s.after ops)).traffic.ledger q = (s.after ops).traffic.ledger q := by
  intro main node edge net publish way old new s ops v w beyond
  have answer (s : Service) (who : HolderId) (path : Route) (now : Timestamp)
      (p : Decision → Bool)
      (h : (s.traffic.reserve s.atlas main who path now).toOption.any (fun a => p a.2) = true) :
      ∃ t d, s.traffic.reserve s.atlas main who path now = .ok (t, d) ∧ p d = true := by
    cases answered : s.traffic.reserve s.atlas main who path now with
    | error e =>
      rw [answered] at h
      cases h
    | ok a =>
      rw [answered] at h
      exact ⟨a.1, a.2, rfl, h⟩
  have latest (earlier : List Operation) (g : Network) :
      (s.after (earlier ++ [publish g])).atlas.network? main = some g := by
    rw [after_append]
    simp [publish, after, Operation.perform, Atlas.network?, Atlas.edition?_publish]
  have first : s.Stands ops v := by
    let earlier : List Operation := [] ++ [publish old]
    obtain ⟨t, d, answered, allowed⟩ := answer (s.after earlier) ⟨"first"⟩ (way "A" "S") ⟨1⟩
      Decision.allowed (by decide +kernel)
    have granted : Operation.Grants (s.after earlier)
        (.reserve v.region v.holder v.path ⟨1⟩) v := .reserve (latest [] old) answered allowed
    exact ⟨earlier, _, _, rfl, granted, by simp [publish]⟩
  have second : s.Stands ops w := by
    let earlier : List Operation :=
      [publish old, .reserve main ⟨"first"⟩ (way "A" "S") ⟨1⟩] ++ [publish new]
    obtain ⟨t, d, answered, allowed⟩ := answer (s.after earlier) ⟨"second"⟩ (way "C" "D") ⟨2⟩
      Decision.allowed (by decide +kernel)
    have granted : Operation.Grants (s.after earlier)
        (.reserve w.region w.holder w.path ⟨2⟩) w := .reserve (latest _ new) answered allowed
    exact ⟨earlier, _, [], rfl, granted, by simp⟩
  obtain ⟨t, d, denied, shut⟩ := answer (s.after ops) ⟨"second"⟩ (way "X" "B") ⟨3⟩
    (fun d => !d.allowed) (by decide +kernel)
  obtain ⟨exclusive, refused⟩ := reservations_exclusive s ops
  obtain ⟨no_edge, -⟩ := exclusive v w first second rfl (by decide)
  obtain ⟨-, unchanged⟩ := refused main ⟨"second"⟩ (way "X" "B") ⟨3⟩
  exact ⟨⟨first, second, no_edge⟩, unchanged t d denied (by simpa using shut)⟩

end Service

end Signalbox
