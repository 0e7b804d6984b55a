import Signalbox.Network.Basic

/-!
# Writing networks as tables

In a table fields are separated by commas and every record ends with a line feed.  A field that
holds a comma, a quote or a line end stands between quotes, and its quotes are doubled.

A network is kept as two tables, one of its nodes and one of its edges.  What is absent is an empty
field.
-/

set_option autoImplicit false

namespace Signalbox

/-! ## Records -/

namespace Csv

/-- Whether a field must stand between quotes. -/
def needsQuotes (cs : List Char) : Bool :=
  cs.any fun c => c = ',' || c = '"' || c = '\r' || c = '\n'

/-- The characters with every quote doubled. -/
def doubleQuotes (cs : List Char) : List Char :=
  cs.flatMap fun c => if c = '"' then ['"', '"'] else [c]

def writeField (cs : List Char) : List Char :=
  if needsQuotes cs then '"' :: (doubleQuotes cs ++ ['"']) else cs

/-- A record as it is written.  A record of one empty field would look like no record, so its field
stands between quotes. -/
def writeRecord (fields : List String) : List Char :=
  match fields with
  | [""] => ['"', '"', '\n']
  | fields => (List.intercalate [','] (fields.map fun s => writeField s.toList)) ++ ['\n']

/-- A table as it is written. -/
def writeTable (records : List (List String)) : String :=
  String.ofList (records.flatMap writeRecord)

end Csv

/-! ## Networks -/

namespace Network

def nodeHeader : List String :=
  ["id", "type", "x", "y", "z", "destination", "operator", "name", "platform"]

/-- The fields of a node. -/
def nodeRecord (n : Node) : List String :=
  let d := n.details.getD {}
  [n.id.text, n.kind.text, Decimal.ofInt n.pos.x.toInt, Decimal.ofInt n.pos.y.toInt,
    Decimal.ofInt n.pos.z.toInt, n.destination.getD "", d.operator.getD "", d.name.getD "",
    (d.platform.map fun p => Decimal.ofNat p.toNat).getD ""]

def nodeTable (g : Network) : List (List String) := nodeHeader :: g.nodes.map nodeRecord

def edgeHeader : List String := ["from", "to", "length", "speed_limit", "bidirectional"]

/-- The fields of an edge. -/
def edgeRecord (e : Edge) : List String :=
  [e.source.text, e.target.text, Decimal.ofNat e.length, e.speedLimit.text,
    if e.bidirectional then "1" else "0"]

def edgeTable (g : Network) : List (List String) := edgeHeader :: g.edges.map edgeRecord

end Network

end Signalbox
