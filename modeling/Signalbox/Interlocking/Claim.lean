import Signalbox.Interlocking.Resource
import Signalbox.Time

/-!
# Claims, requests and decisions

A claim is the hold of one holder on one resource.  It is live until it is released; afterwards it
keeps the resource closed to others until its headway has passed.  A request asks for several
resources at once, and a decision says whether they are free, from when on they would be, which
signal that means, and which claims stand in the way.
-/

set_option autoImplicit false

namespace Signalbox

/-- Who holds a resource, since when, and for how long it stays closed after its release. -/
structure Hold where
  holder : HolderId
  acquiredAt : Timestamp
  headway : UInt64
  releasedAt : Option Timestamp := none
deriving DecidableEq, Inhabited

namespace Hold

/-- A hold is live until it is released. -/
def isLive (h : Hold) : Bool := h.releasedAt.isNone

/-- When the resource is free for others, as seen at `now`: a headway after the release, and if it
is not released yet, a headway after the earliest instant at which it can be. -/
def availableAt (h : Hold) (now : Timestamp) : Timestamp :=
  match h.releasedAt with
  | some t => t.plus h.headway
  | none => (max h.acquiredAt now).plus h.headway

def release (h : Hold) (now : Timestamp) : Hold := { h with releasedAt := some now }

end Hold

/-- The hold of a holder on a resource. -/
structure Claim where
  resource : Resource
  hold : Hold
deriving DecidableEq, Inhabited

/-- Somebody asks for several resources at once. -/
structure Request where
  holder : HolderId
  /-- Treat the holder's own live claims as free. -/
  ignoreOwn : Bool := false
  now : Timestamp
  resources : List Resource
deriving DecidableEq, Inhabited

/-- What a signal shows. -/
inductive Aspect where
  /-- Everything is free. -/
  | clear
  /-- Only released track blocks, and all of it opens soon. -/
  | caution
  /-- Held track blocks, or released track that does not open soon. -/
  | stop
deriving DecidableEq, Inhabited

namespace Aspect

def text : Aspect → String
  | clear => "clear"
  | caution => "caution"
  | stop => "stop"

def rank : Aspect → Nat
  | clear => 0
  | caution => 1
  | stop => 2

instance : LE Aspect := ⟨fun a b => a.rank ≤ b.rank⟩
instance (a b : Aspect) : Decidable (a ≤ b) := inferInstanceAs (Decidable (a.rank ≤ b.rank))

theorem le_stop (a : Aspect) : a ≤ stop := by
  cases a <;> decide

theorem le_clear_iff {a : Aspect} : a ≤ clear ↔ a = clear := by
  cases a <;> decide

end Aspect

/-- The answer to a request. -/
structure Decision where
  allowed : Bool
  /-- The earliest instant at which everything that was asked for is free. -/
  earliest : Timestamp
  aspect : Aspect
  /-- The claims that stand in the way, in the order of the request. -/
  blockers : List Claim
deriving DecidableEq, Inhabited

end Signalbox
