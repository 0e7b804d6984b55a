import Signalbox.Numeral.Decimal

/-!
# JSON values

A JSON value as it was written: numbers keep their digits, records keep the order of their members
and may repeat a name.  Escapes in a text may name half of a surrogate pair; such a text has no
characters and is kept as `none`, since it is only wrong where somebody reads it.
-/

set_option autoImplicit false

namespace Signalbox.Json

/-- A number as it is written: sign, whole digits, digits after the point, and exponent. -/
structure Numeral where
  negative : Bool
  whole : List Char
  fraction : Option (List Char) := none
  /-- Whether the exponent has a minus sign, and its digits. -/
  exponent : Option (Bool × List Char) := none
deriving DecidableEq, Inhabited

/-- The characters of a quoted text, if its escapes name characters. -/
abbrev Quoted := Option (List Char)

/-- A JSON value. -/
inductive Value where
  | null
  | bool (b : Bool)
  | number (n : Numeral)
  | text (s : Quoted)
  | list (items : List Value)
  | record (members : List (Quoted × Value))
deriving Inhabited

namespace Value

def ofString (s : String) : Value := .text (some s.toList)

def ofNat (n : Nat) : Value := .number { negative := false, whole := Decimal.digits n }

def ofInt : Int → Value
  | .ofNat n => ofNat n
  | .negSucc n => .number { negative := true, whole := Decimal.digits (n + 1) }

/-- `null` for an absent value. -/
def ofOption {α : Type} (f : α → Value) : Option α → Value
  | none => .null
  | some a => f a

/-- A record with distinct names, in order. -/
def ofFields (fields : List (String × Value)) : Value :=
  .record (fields.map fun (k, v) => (some k.toList, v))

end Value

end Signalbox.Json
