import Signalbox.Digest.Bytes
import Signalbox.Text.Blank

/-!
# Reading comma-separated tables

A table is read byte by byte.  Fields are separated by commas and records end with a line feed, a
carriage return, or both; empty lines are skipped.  A field that starts with a quote runs to the
closing quote, and a doubled quote inside stands for one; whatever follows the closing quote is
taken as it is.  The end of the text ends the last record.

Each record carries the position at which its reading began, which is right behind the end of the
record before it.  Its fields are bytes; as texts they are decoded from UTF-8 and trimmed, and a
field that is not UTF-8 is reported with the length of its longest valid beginning.
-/

set_option autoImplicit false

namespace Signalbox.Csv

/-- A place in a text: bytes before it, and its line, counted by line feeds from one. -/
structure Position where
  line : Nat
  byte : Nat
deriving DecidableEq, Inhabited

/-- The fields of one record, and where its reading began. -/
structure RawRecord where
  start : Position
  fields : List (List UInt8)
deriving DecidableEq, Inhabited

/-- Where in a record the reader is. -/
inductive Mode where
  /-- Before a record; line ends are skipped. -/
  | record
  /-- Behind a comma. -/
  | field
  /-- In a field without quotes, or behind its closing quote. -/
  | plain
  /-- Between quotes. -/
  | quoted
  /-- Behind a quote between quotes, which closes the field or is the first of two. -/
  | quote
  /-- Behind a carriage return that ended a record. -/
  | return_
deriving DecidableEq, Inhabited

def comma : UInt8 := 0x2c
def quoteMark : UInt8 := 0x22
def lineFeed : UInt8 := 0x0a
def carriageReturn : UInt8 := 0x0d

/-- Whether a byte ends a record. -/
def isLineEnd (b : UInt8) : Bool := b = lineFeed || b = carriageReturn

/-- The state of the reader.  Finished parts are kept with the last one first. -/
structure Scan where
  mode : Mode := .record
  /-- The bytes of the current field. -/
  bytes : List UInt8 := []
  /-- The finished fields of the current record. -/
  fields : List (List UInt8) := []
  /-- Where the current record began. -/
  start : Position := ⟨1, 0⟩
  /-- The finished records. -/
  records : List RawRecord := []
deriving Inhabited

namespace Scan

/-- Take a byte into the current field. -/
def keep (s : Scan) (b : UInt8) (mode : Mode) : Scan := { s with bytes := b :: s.bytes, mode }

/-- The current field is complete. -/
def endField (s : Scan) : Scan :=
  { s with bytes := [], fields := s.bytes.reverse :: s.fields, mode := .field }

/-- The current record is complete; the next one begins at `next`. -/
def endRecord (s : Scan) (next : Position) (mode : Mode) : Scan :=
  let s := s.endField
  { mode, bytes := [], fields := [], start := next,
    records := ⟨s.start, s.fields.reverse⟩ :: s.records }

/-- A byte that is neither part of quoting nor of the field: it separates or ends, or it is kept. -/
def plainByte (s : Scan) (b : UInt8) (next : Position) : Scan :=
  if b = comma then s.endField
  else if isLineEnd b then s.endRecord next (if b = carriageReturn then .return_ else .record)
  else s.keep b .plain

/-- A byte at the start of a field. -/
def firstByte (s : Scan) (b : UInt8) (next : Position) : Scan :=
  if b = quoteMark then { s with mode := .quoted } else s.plainByte b next

/-- The reader takes a byte; `next` is the position behind it. -/
def step (s : Scan) (b : UInt8) (next : Position) : Scan :=
  match s.mode with
  | .record => if isLineEnd b then s else s.firstByte b next
  | .return_ =>
    if isLineEnd b then { s with mode := .record } else s.firstByte b next
  | .field => s.firstByte b next
  | .plain => s.plainByte b next
  | .quoted => if b = quoteMark then { s with mode := .quote } else s.keep b .quoted
  | .quote => if b = quoteMark then s.keep b .quoted else s.plainByte b next

/-- The position behind a byte. -/
def advance (p : Position) (b : UInt8) : Position :=
  ⟨if b = lineFeed then p.line + 1 else p.line, p.byte + 1⟩

/-- The reader takes all bytes from a position on. -/
def run (s : Scan) (p : Position) : List UInt8 → Scan
  | [] => s
  | b :: bs => (s.step b (advance p b)).run (advance p b) bs

/-- All records, once the text has ended. -/
def finish (s : Scan) : List RawRecord :=
  match s.mode with
  | .record | .return_ => s.records.reverse
  | _ => (s.endRecord s.start .record).records.reverse

end Scan

/-- The records of a text.  A byte order mark at its start is skipped. -/
def records (bytes : List UInt8) : List RawRecord :=
  match bytes with
  | 0xef :: 0xbb :: 0xbf :: rest => (Scan.run {} ⟨1, 3⟩ rest).finish
  | bytes => (Scan.run {} ⟨1, 0⟩ bytes).finish

/-! ## The texts of a record -/

/-- Space, tab, line feed, form feed and carriage return. -/
def isBlankByte (b : UInt8) : Bool := b = 0x20 || b = 0x09 || b = 0x0a || b = 0x0c || b = 0x0d

/-- The bytes without the blank bytes at both ends. -/
def trimBytes (bs : List UInt8) : List UInt8 :=
  ((bs.dropWhile isBlankByte).reverse.dropWhile isBlankByte).reverse

/-- The text of some bytes, if they are UTF-8. -/
def decode? (bs : List UInt8) : Option String := String.fromUTF8? ⟨bs.toArray⟩

/-- The length of the longest beginning that is UTF-8. -/
def validLength (bs : List UInt8) : Nat :=
  ((List.range bs.length).reverse.find? fun n => (decode? (bs.take n)).isSome).getD 0

/-- A field that is not UTF-8, and how far it is valid. -/
structure EncodingFault where
  field : Nat
  validLength : Nat
deriving DecidableEq, Inhabited

/-- The trimmed texts of some fields, the first of which has the given number. -/
def texts (number : Nat) : List (List UInt8) → Except EncodingFault (List String)
  | [] => .ok []
  | f :: fs =>
    match decode? (trimBytes f) with
    | none => .error ⟨number, validLength (trimBytes f)⟩
    | some s => (texts (number + 1) fs).map (Text.trim s :: ·)

end Signalbox.Csv
