import Signalbox.Json.Number
import Signalbox.Json.Reader
import Signalbox.Json.Writer

/-!
# Written forms

A type has a written form if its values can be turned into JSON values and back.  Records are
written with all their fields in order.  They are read from a record in any order, where unknown
members are skipped and a known one must not be repeated, or from a list of the fields in order.

* `read?`, `write` : the value of a text and the text of a value.
-/

set_option autoImplicit false

namespace Signalbox.Json

/-- A type with a written form. -/
class Form (α : Type) where
  toValue : α → Value
  ofValue? : Value → Option α

/-- The value that a text writes. -/
def read? {α : Type} [Form α] (s : String) : Option α := (Value.read s).bind Form.ofValue?

/-- The compact text of a value. -/
def write {α : Type} [Form α] (a : α) : String := (Form.toValue a).toText

/-! ## Records -/

/-- The value of a member, if the record has it. -/
def member? (ms : List (Quoted × Value)) (name : String) : Option Value :=
  (ms.find? fun m => m.1 = some name.toList).map Prod.snd

/-- Every name can be read, and none of the known ones is repeated. -/
def wellNamed (names : List String) (ms : List (Quoted × Value)) : Bool :=
  ms.all (fun m => m.1.isSome) &&
    names.all fun n => ms.countP (fun m => m.1 = some n.toList) ≤ 1

/-- The values of the named fields, each if it is there.  A list holds them in order; it may be
shorter than the names only where `short` allows it. -/
def Value.fields? (names : List String) (short : Bool) : Value → Option (List (Option Value))
  | .record ms => if wellNamed names ms then some (names.map (member? ms)) else none
  | .list vs =>
    if vs.length = names.length || (short && vs.length < names.length) then
      some (vs.map some ++ List.replicate (names.length - vs.length) none)
    else none
  | _ => none

/-- A field that must be there. -/
def required {α : Type} [Form α] (v : Option Value) : Option α := v.bind Form.ofValue?

/-- A field that has a default. -/
def orDefault {α : Type} [Form α] (d : α) : Option Value → Option α
  | none => some d
  | some v => Form.ofValue? v

/-- A field that may be missing. -/
def optional {α : Type} [Form α] : Option Value → Option (Option α)
  | none => some none
  | some .null => some none
  | some v => (Form.ofValue? v).map some

/-! ## Plain forms -/

instance : Form String where
  toValue := .ofString
  ofValue?
    | .text (some cs) => some (String.ofList cs)
    | _ => none

instance : Form Bool where
  toValue := .bool
  ofValue?
    | .bool b => some b
    | _ => none

/-- A natural number below a bound. -/
def natValue? (bound : Nat) : Value → Option Nat
  | .number n => n.natBelow? bound
  | _ => none

instance : Form UInt16 where
  toValue n := .ofNat n.toNat
  ofValue? v := (natValue? size16 v).map UInt16.ofNat

instance : Form UInt32 where
  toValue n := .ofNat n.toNat
  ofValue? v := (natValue? size32 v).map UInt32.ofNat

instance : Form UInt64 where
  toValue n := .ofNat n.toNat
  ofValue? v := (natValue? size64 v).map UInt64.ofNat

instance : Form Int32 where
  toValue i := .ofInt i.toInt
  ofValue?
    | .number n =>
      match n.integer? with
      | some i => if -(negatives32 : Int) ≤ i ∧ i < negatives32 then some (Int32.ofInt i) else none
      | none => none
    | _ => none

/-- Numbers with many digits before or after the point are written with an exponent, and whole
numbers keep a point and a zero. -/
def binary32Layout : DecimalLayout := ⟨.even, some 13, some 5, true⟩

instance : Form Binary32 where
  toValue v :=
    if v.isFinite then
      .number { Numeral.ofText (v.decimal binary32Layout) with negative := v.isNegative }
    else .null
  ofValue?
    | .number n => n.binary32?
    | _ => none

instance {α : Type} [Form α] : Form (Option α) where
  toValue := .ofOption Form.toValue
  ofValue?
    | .null => some none
    | v => (Form.ofValue? v).map some

instance {α : Type} [Form α] : Form (List α) where
  toValue as := .list (as.map Form.toValue)
  ofValue?
    | .list vs => vs.mapM Form.ofValue?
    | _ => none

/-! ## Enumerations -/

/-- The name in an enumeration form: a text, or a record with the name and `null`. -/
def variant? : Value → Option String
  | .text (some cs) => some (String.ofList cs)
  | .record [(some cs, .null)] => some (String.ofList cs)
  | _ => none

/-- The member of a list whose name the value gives. -/
def enumValue? {α : Type} (all : List α) (name : α → String) (v : Value) : Option α :=
  (variant? v).bind fun s => all.find? fun a => name a = s

end Signalbox.Json
