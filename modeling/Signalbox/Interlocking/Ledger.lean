import Signalbox.Interlocking.Claim
import Signalbox.Settings

/-!
# The ledger

For each resource the ledger of a region holds at most one claim: the live one or, after its
release, the one that still keeps the resource closed.

* A holder is never kept out by track that it released itself.
* Its own live claims keep it out, unless the request says to ignore them; they are then renewed.
* A request is granted as a whole or not at all.

`Ledger.decide` judges a request, `Ledger.acquire` also records what it grants.
-/

set_option autoImplicit false

namespace Signalbox

/-- The claims of a region. -/
structure Ledger where
  settings : HeadwaySettings
  holds : Std.ExtTreeMap Resource Hold

namespace Ledger

def empty (settings : HeadwaySettings) : Ledger := ⟨settings, ∅⟩

instance : Inhabited Ledger := ⟨empty {}⟩

/-! ## Judging a request -/

/-- Whether a hold keeps a request out. -/
def blocks (h : Hold) (q : Request) : Bool :=
  if h.isLive then !(h.holder = q.holder && q.ignoreOwn)
  else h.holder ≠ q.holder && q.now < h.availableAt q.now

/-- The claim on a resource that keeps a request out. -/
def blocker? (l : Ledger) (q : Request) (r : Resource) : Option Claim :=
  match l.holds[r]? with
  | some h => if blocks h q then some ⟨r, h⟩ else none
  | none => none

/-- The claims that keep a request out, each once. -/
def blockers (l : Ledger) (q : Request) : List Claim :=
  q.resources.eraseDups.filterMap (l.blocker? q)

/-- When the last of some claims is out of the way. -/
def earliest (now : Timestamp) (cs : List Claim) : Timestamp :=
  cs.foldl (fun t c => max t (c.hold.availableAt now)) now

/-- The signal for some blockers. -/
def aspect (settings : HeadwaySettings) (now : Timestamp) (cs : List Claim) : Aspect :=
  if cs.isEmpty then .clear
  else if !cs.any (fun c => c.hold.isLive) && earliest now cs ≤ now.plus settings.cautionWindow then
    .caution
  else .stop

/-- The decision on a request, without recording anything. -/
def decide (l : Ledger) (q : Request) : Decision :=
  let cs := l.blockers q
  ⟨cs.isEmpty, earliest q.now cs, aspect l.settings q.now cs, cs⟩

/-! ## Recording -/

/-- The hold that a granted request gives on each of its resources. -/
def grant (l : Ledger) (q : Request) : Hold := ⟨q.holder, q.now, l.settings.headway, none⟩

/-- Record a claim of the request's holder on every resource it names. -/
def record (l : Ledger) (q : Request) : Ledger :=
  { l with holds := q.resources.eraseDups.foldl (fun m r => m.insert r (l.grant q)) l.holds }

/-- Judge a request and, if it is allowed, record it. -/
def acquire (l : Ledger) (q : Request) : Ledger × Decision :=
  let d := l.decide q
  (if d.allowed then l.record q else l, d)

/-- The order in which simultaneous requests are judged: by time, then by holder. -/
def before (p q : Request) : Bool :=
  if p.now = q.now then p.holder ≤ q.holder else p.now < q.now

/-- Judge and record several requests in their order. -/
def acquireAll (l : Ledger) : List Request → Ledger × List (HolderId × Decision)
  | [] => (l, [])
  | q :: qs =>
    let (l, d) := l.acquire q
    let (l, ds) := l.acquireAll qs
    (l, (q.holder, d) :: ds)

/-- Judge and record simultaneous requests, first by time, then by holder. -/
def arbitrate (l : Ledger) (qs : List Request) : Ledger × List (HolderId × Decision) :=
  l.acquireAll (qs.mergeSort before)

/-! ## Release -/

def isHeldBy (who : HolderId) (h : Hold) : Bool := h.isLive && h.holder = who

/-- Release every live claim of a holder, and count them. -/
def releaseAll (l : Ledger) (who : HolderId) (now : Timestamp) : Ledger × Nat :=
  ({ l with holds := l.holds.map fun _ h => if isHeldBy who h then h.release now else h },
    l.holds.toList.countP fun (_, h) => isHeldBy who h)

/-- Release the live claim on a resource, if it is of the expected holder, and say whether it
was. -/
def release (l : Ledger) (r : Resource) (expected : Option HolderId) (now : Timestamp) :
    Ledger × Bool :=
  match l.holds[r]? with
  | some h =>
    if h.isLive && expected.all (· = h.holder) then
      ({ l with holds := l.holds.insert r (h.release now) }, true)
    else (l, false)
  | none => (l, false)

/-- Whether a hold still matters at `now`. -/
def isCurrent (now : Timestamp) (h : Hold) : Bool := h.isLive || now < h.availableAt now

/-- Forget the released claims whose headway has passed, and count them. -/
def purge (l : Ledger) (now : Timestamp) : Ledger × Nat :=
  ({ l with holds := l.holds.filter fun _ h => isCurrent now h },
    l.holds.toList.countP fun (_, h) => !isCurrent now h)

/-! ## Contents -/

/-- All claims, by resource. -/
def claims (l : Ledger) : List Claim := l.holds.toList.map fun (r, h) => ⟨r, h⟩

/-- The live claims of a holder. -/
def claimsOf (l : Ledger) (who : HolderId) : List Claim :=
  l.claims.filter fun c => isHeldBy who c.hold

def liveCount (l : Ledger) : Nat := l.claims.countP fun c => c.hold.isLive

end Ledger

end Signalbox
