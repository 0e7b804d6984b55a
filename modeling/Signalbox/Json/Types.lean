import Signalbox.Interlocking.Claim
import Signalbox.Json.Form
import Signalbox.Network.Signature
import Signalbox.Settings

/-!
# The written forms of the library's types

Identifiers, instants and signatures are written as bare texts and numbers, enumerations by the
names of their members, and everything else as a record of its fields in order.
-/

set_option autoImplicit false

namespace Signalbox.Json

/-! ## Identifiers, instants, signatures, cells -/

instance {r : IdentRole} : Form (Ident r) where
  toValue i := Form.toValue i.text
  ofValue? v := (Form.ofValue? v).map Ident.mk

instance : Form Timestamp where
  toValue t := Form.toValue t.ms
  ofValue? v := (Form.ofValue? v).map Timestamp.mk

instance : Form Signature where
  toValue s := Form.toValue s.word
  ofValue? v := (Form.ofValue? v).map Signature.mk

instance : Form Cell where
  toValue c := .ofFields [("x", Form.toValue c.x), ("y", Form.toValue c.y), ("z", Form.toValue c.z)]
  ofValue? v :=
    match v.fields? ["x", "y", "z"] false with
    | some [x, y, z] => do return ⟨← required x, ← required y, ← required z⟩
    | _ => none

/-! ## Enumerations -/

instance : Form NodeKind where
  toValue k := .ofString k.text
  ofValue? := enumValue? NodeKind.all NodeKind.text

def objectiveName : Objective → String
  | .length => "length"
  | .travelTime => "travel_time"

instance : Form Objective where
  toValue o := .ofString (objectiveName o)
  ofValue? := enumValue? [.length, .travelTime] objectiveName

def resourceKindName : ResourceKind → String
  | .edge => "Edge"
  | .junction => "Junction"
  | .custom => "Custom"

instance : Form ResourceKind where
  toValue k := .ofString (resourceKindName k)
  ofValue? := enumValue? [.edge, .junction, .custom] resourceKindName

def aspectName : Aspect → String
  | .clear => "Clear"
  | .caution => "Caution"
  | .stop => "Stop"

instance : Form Aspect where
  toValue a := .ofString (aspectName a)
  ofValue? := enumValue? [.clear, .caution, .stop] aspectName

/-! ## The network -/

instance : Form Details where
  toValue d :=
    .ofFields [("operator", Form.toValue d.operator), ("name", Form.toValue d.name),
      ("platform", Form.toValue d.platform)]
  ofValue? v :=
    match v.fields? ["operator", "name", "platform"] false with
    | some [o, n, p] => do return ⟨← optional o, ← optional n, ← optional p⟩
    | _ => none

instance : Form Node where
  toValue n :=
    .ofFields [("id", Form.toValue n.id), ("node_type", Form.toValue n.kind),
      ("pos", Form.toValue n.pos), ("destination", Form.toValue n.destination),
      ("meta", Form.toValue n.details)]
  ofValue? v :=
    match v.fields? ["id", "node_type", "pos", "destination", "meta"] false with
    | some [i, k, p, d, m] => do
      return ⟨← required i, ← required k, ← required p, ← optional d, ← optional m⟩
    | _ => none

instance : Form Ends where
  toValue k := .ofFields [("a", Form.toValue k.a), ("b", Form.toValue k.b)]
  ofValue? v :=
    match v.fields? ["a", "b"] false with
    | some [a, b] => do return ⟨← required a, ← required b⟩
    | _ => none

instance : Form EdgeDetails where
  toValue d := .ofFields [("from", Form.toValue d.source), ("to", Form.toValue d.target)]
  ofValue? v :=
    match v.fields? ["from", "to"] false with
    | some [s, t] => do return ⟨← optional s, ← optional t⟩
    | _ => none

instance : Form Edge where
  toValue e :=
    .ofFields [("from", Form.toValue e.source), ("to", Form.toValue e.target),
      ("length", .ofNat e.length), ("speed_limit", Form.toValue e.speedLimit),
      ("bidirectional", Form.toValue e.bidirectional), ("meta", Form.toValue e.details)]
  ofValue? v :=
    match v.fields? ["from", "to", "length", "speed_limit", "bidirectional", "meta"] false with
    | some [s, t, l, p, b, m] => do
      let length : UInt32 ← required l
      return ⟨← required s, ← required t, length.toNat, ← required p, ← required b, ← optional m⟩
    | _ => none

/-! ## The interlocking -/

instance : Form Resource where
  toValue r := .ofFields [("kind", Form.toValue r.kind), ("key", Form.toValue r.key)]
  ofValue? v :=
    match v.fields? ["kind", "key"] false with
    | some [k, s] => do return ⟨← required k, ← required s⟩
    | _ => none

instance : Form Claim where
  toValue c :=
    .ofFields [("resource", Form.toValue c.resource), ("holder", Form.toValue c.hold.holder),
      ("acquired_at", Form.toValue c.hold.acquiredAt), ("headway_ms", Form.toValue c.hold.headway),
      ("released_at", Form.toValue c.hold.releasedAt)]
  ofValue? v :=
    match v.fields? ["resource", "holder", "acquired_at", "headway_ms", "released_at"] false with
    | some [r, h, a, w, t] => do
      return ⟨← required r, ⟨← required h, ← required a, ← required w, ← optional t⟩⟩
    | _ => none

instance : Form Request where
  toValue q :=
    .ofFields [("holder", Form.toValue q.holder), ("ignore_own", Form.toValue q.ignoreOwn),
      ("now", Form.toValue q.now), ("resources", Form.toValue q.resources)]
  ofValue? v :=
    match v.fields? ["holder", "ignore_own", "now", "resources"] false with
    | some [h, i, n, r] => do return ⟨← required h, ← required i, ← required n, ← required r⟩
    | _ => none

/-! ## Settings -/

instance : Form HeadwaySettings where
  toValue c :=
    .ofFields [("headway_ms", Form.toValue c.headway),
      ("caution_window_ms", Form.toValue c.cautionWindow)]
  ofValue? v :=
    let d : HeadwaySettings := {}
    match v.fields? ["headway_ms", "caution_window_ms"] true with
    | some [h, c] => do return ⟨← orDefault d.headway h, ← orDefault d.cautionWindow c⟩
    | _ => none

instance : Form BuildSettings where
  toValue c :=
    .ofFields [("step_budget_cells", Form.toValue c.stepBudget),
      ("anchor_radius", Form.toValue c.anchorRadius), ("seed_radius", Form.toValue c.seedRadius),
      ("missing_switcher_cap", Form.toValue c.missingCap),
      ("default_speed_limit", Form.toValue c.speedLimit)]
  ofValue? v :=
    let d : BuildSettings := {}
    match v.fields? ["step_budget_cells", "anchor_radius", "seed_radius", "missing_switcher_cap",
      "default_speed_limit"] true with
    | some [b, a, s, m, l] => do
      return ⟨← orDefault d.stepBudget b, ← orDefault d.anchorRadius a, ← orDefault d.seedRadius s,
        ← orDefault d.missingCap m, ← orDefault d.speedLimit l⟩
    | _ => none

instance : Form Settings where
  toValue c := .ofFields [("build", Form.toValue c.build), ("occupancy", Form.toValue c.occupancy)]
  ofValue? v :=
    let d : Settings := {}
    match v.fields? ["build", "occupancy"] true with
    | some [b, o] => do return ⟨← orDefault d.build b, ← orDefault d.occupancy o⟩
    | _ => none

end Signalbox.Json
