import Signalbox.Csv.Integer
import Signalbox.Csv.Reader
import Signalbox.Marker.Basic
import Signalbox.Storage.Folders

/-!
# Loading markers from a table

A table of markers has one row per marker.  Its columns are found by their headings: `region`, `id`,
`type` and the coordinates are required, `destination`, `operator`, `name` and `platform` may be
missing or empty, and others are skipped.  All rows have as many fields as the headings.  If the
headings are not UTF-8, the fields are taken in the order above.

* `MarkerRoll.load` : the markers of a table, or the first fault in it.
-/

set_option autoImplicit false

namespace Signalbox

/-! ## Faults -/

/-- A fault in the reading of a row. -/
inductive RowFault where
  /-- The row has another number of fields than the headings. -/
  | fieldCount (found expected : Nat)
  | encoding (fault : Csv.EncodingFault)
  | integer (field : Nat) (fault : Csv.IntegerFault)
  | missingColumn (name : String)
  | repeatedColumn (name : String)
  /-- A row without headings ends too early. -/
  | tooShort (found : Nat)

/-- Why markers could not be loaded. -/
inductive LoadFault where
  /-- The row, counted from the headings, where its reading began, and what is wrong with it. -/
  | row (number : Nat) (start : Csv.Position) (fault : RowFault)
  /-- The marker, counted from one, and the text that names no kind. -/
  | unknownKind (number : Nat) (text : String)
  | storage (fault : StorageFault)

namespace LoadFault

/-- The place of a row in a message. -/
def place (number : Nat) (start : Csv.Position) : String :=
  "record " ++ Decimal.ofNat number ++ " (line: " ++ Decimal.ofNat start.line ++ ", byte: "
    ++ Decimal.ofNat start.byte ++ "): "

/-- The part of a message that tells what is wrong with a row. -/
def rowMessage (number : Nat) (start : Csv.Position) : RowFault → String
  | .fieldCount found expected =>
    "CSV error: " ++ place number start ++ "found record with " ++ Decimal.ofNat found
      ++ " fields, but the previous record has " ++ Decimal.ofNat expected ++ " fields"
  | .encoding f =>
    "CSV parse error: record " ++ Decimal.ofNat number ++ " (line " ++ Decimal.ofNat start.line
      ++ ", field: " ++ Decimal.ofNat f.field ++ ", byte: " ++ Decimal.ofNat start.byte
      ++ "): invalid utf-8: invalid UTF-8 in field " ++ Decimal.ofNat f.field
      ++ " near byte index " ++ Decimal.ofNat f.validLength
  | .integer field f =>
    "CSV deserialize error: " ++ place number start ++ "field " ++ Decimal.ofNat field ++ ": "
      ++ f.message
  | .missingColumn name =>
    "CSV deserialize error: " ++ place number start ++ "missing field \x60" ++ name ++ "\x60"
  | .repeatedColumn name =>
    "CSV deserialize error: " ++ place number start ++ "duplicate field \x60" ++ name ++ "\x60"
  | .tooShort found =>
    "CSV deserialize error: " ++ place number start ++ "invalid length " ++ Decimal.ofNat found
      ++ ", expected struct MarkerRecord with 10 elements"

def message : LoadFault → String
  | row number start f => "marker parse error: " ++ rowMessage number start f
  | unknownKind number text =>
    "marker parse error: row " ++ Decimal.ofNat number ++ ": " ++ NodeKind.unknownMessage text
  | storage f => "I/O error: " ++ f.message

end LoadFault

/-! ## Rows -/

/-- The columns of a table of markers. -/
inductive MarkerColumn where
  | region
  | id
  | kind
  | x
  | y
  | z
  | destination
  | operator
  | name
  | platform
deriving DecidableEq, Inhabited

namespace MarkerColumn

/-- The columns in the order that holds without headings. -/
def all : List MarkerColumn := [region, id, kind, x, y, z, destination, operator, name, platform]

def heading : MarkerColumn → String
  | region => "region"
  | id => "id"
  | kind => "type"
  | x => "x"
  | y => "y"
  | z => "z"
  | destination => "destination"
  | operator => "operator"
  | name => "name"
  | platform => "platform"

def ofHeading? (s : String) : Option MarkerColumn := all.find? fun c => c.heading = s

end MarkerColumn

/-- What has been read of a row, column by column; `none` for columns not seen yet. -/
structure MarkerRow where
  region : Option String := none
  id : Option String := none
  kind : Option String := none
  x : Option Int := none
  y : Option Int := none
  z : Option Int := none
  destination : Option String := none
  operator : Option String := none
  name : Option String := none
  platform : Option (Option Int) := none

namespace MarkerRow

def has (r : MarkerRow) : MarkerColumn → Bool
  | .region => r.region.isSome
  | .id => r.id.isSome
  | .kind => r.kind.isSome
  | .x => r.x.isSome
  | .y => r.y.isSome
  | .z => r.z.isSome
  | .destination => r.destination.isSome
  | .operator => r.operator.isSome
  | .name => r.name.isSome
  | .platform => r.platform.isSome

/-- The integer in a field of the given number. -/
def integer (range : Csv.IntegerRange) (field : Nat) (s : String) : Except RowFault Int :=
  (Csv.readInteger range s.toList).mapError (.integer field)

/-- Read a field into its column. -/
def put (r : MarkerRow) (c : MarkerColumn) (field : Nat) (s : String) : Except RowFault MarkerRow :=
  match c with
  | .region => .ok { r with region := some s }
  | .id => .ok { r with id := some s }
  | .kind => .ok { r with kind := some s }
  | .x => (integer Csv.coordinateRange field s).map fun i => { r with x := some i }
  | .y => (integer Csv.coordinateRange field s).map fun i => { r with y := some i }
  | .z => (integer Csv.coordinateRange field s).map fun i => { r with z := some i }
  | .destination => .ok { r with destination := some s }
  | .operator => .ok { r with operator := some s }
  | .name => .ok { r with name := some s }
  | .platform =>
    if s = "" then .ok { r with platform := some none }
    else (integer Csv.platformRange field s).map fun i => { r with platform := some (some i) }

/-- Read fields under their headings, from the column of the given number on. -/
def underHeadings (r : MarkerRow) (field : Nat) : List (String × String) → Except RowFault MarkerRow
  | [] => .ok r
  | (h, s) :: rest =>
    match MarkerColumn.ofHeading? h with
    | none => r.underHeadings (field + 1) rest
    | some c =>
      if r.has c then .error (.repeatedColumn c.heading)
      else (r.put c field s).bind fun r => r.underHeadings (field + 1) rest

/-- Read fields in the order of the columns. -/
def inOrder (r : MarkerRow) (field : Nat) :
    List MarkerColumn → List String → Except RowFault MarkerRow
  | [], _ => .ok r
  | _ :: _, [] => .error (.tooShort field)
  | c :: cs, s :: rest => (r.put c field s).bind fun r => r.inOrder (field + 1) cs rest

/-- The first required column that has not been read. -/
def missing? (r : MarkerRow) : Option MarkerColumn :=
  [MarkerColumn.region, .id, .kind, .x, .y, .z].find? fun c => !r.has c

/-- An empty text is no text. -/
def nonEmpty (s : Option String) : Option String := s.filter (· ≠ "")

/-- The region and the marker of a complete row, given its kind. -/
def marker (r : MarkerRow) (k : NodeKind) : RegionId × Marker :=
  let d : Details :=
    { operator := nonEmpty r.operator, name := nonEmpty r.name
      platform := (r.platform.getD none).map fun i => UInt16.ofNat i.toNat }
  let coordinate (i : Option Int) : Int32 := Int32.ofInt (i.getD 0)
  (⟨r.region.getD ""⟩,
    { id := ⟨r.id.getD ""⟩, kind := k, pos := ⟨coordinate r.x, coordinate r.y, coordinate r.z⟩
      destination := nonEmpty r.destination
      details := if d.isEmpty then none else some d })

end MarkerRow

/-! ## Tables -/

namespace MarkerRoll

/-- The row of a record, given the headings if they could be read, and how many they are. -/
def readRow (headings : Option (List String)) (width : Nat) (fields : List (List UInt8)) :
    Except RowFault MarkerRow :=
  if fields.length ≠ width then .error (.fieldCount fields.length width)
  else do
    let texts ← (Csv.texts 0 fields).mapError .encoding
    match headings with
    | some hs =>
      let row ← MarkerRow.underHeadings {} 0 (hs.zip texts)
      match row.missing? with
      | some c => .error (.missingColumn c.heading)
      | none => return row
    | none => MarkerRow.inOrder {} 0 MarkerColumn.all texts

/-- Add the markers of the records to a roll; the first record has the given number. -/
def addRecords (headings : Option (List String)) (width : Nat) (t : MarkerRoll) (number : Nat) :
    List Csv.RawRecord → Except LoadFault MarkerRoll
  | [] => .ok t
  | rec :: recs => do
    let row ← (readRow headings width rec.fields).mapError (.row number rec.start)
    let text := row.kind.getD ""
    match NodeKind.ofText? text with
    | none => .error (.unknownKind number text)
    | some k =>
      let (region, m) := row.marker k
      addRecords headings width (t.insert region m) (number + 1) recs

/-- The texts of headings, if they are UTF-8. -/
def headings? (fields : List (List UInt8)) : Option (List String) :=
  (fields.mapM Csv.decode?).map fun hs => hs.map Text.trim

/-- The markers in the bytes of a table. -/
def load (bytes : List UInt8) : Except LoadFault MarkerRoll :=
  match Csv.records bytes with
  | [] => .ok empty
  | h :: recs => addRecords (headings? h.fields) h.fields.length empty 1 recs

def loadText (s : String) : Except LoadFault MarkerRoll := load (Digest.textBytes s)

end MarkerRoll

end Signalbox
