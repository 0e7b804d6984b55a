import Signalbox.Json.Token

/-!
# Reading JSON

A value is put together from its tokens by a machine with a stack of the lists and records that are
still open.  Nesting may be as deep as it likes.

* `Value.read` : the value of a text, if the text is one value with blanks around it.
-/

set_option autoImplicit false

namespace Signalbox.Json

/-- A list or record that is still open, with what it holds so far, the last item first. -/
inductive Frame where
  | list (items : List Value)
  /-- A record, and the name of the member whose value comes next. -/
  | record (members : List (Quoted × Value)) (key : Quoted)
deriving Inhabited

/-- What the reader waits for; the list holds what is open, innermost first. -/
inductive Reader where
  /-- A value. -/
  | value (stack : List Frame)
  /-- The first item of a list, or its end. -/
  | firstItem (stack : List Frame)
  /-- The first member of a record, or its end. -/
  | firstMember (stack : List Frame)
  /-- The name of another member. -/
  | name (members : List (Quoted × Value)) (stack : List Frame)
  /-- The colon behind a name. -/
  | colon (members : List (Quoted × Value)) (key : Quoted) (stack : List Frame)
  /-- A separator or an end, behind a complete value. -/
  | done (v : Value) (stack : List Frame)

namespace Reader

/-- The reader that waits for a value takes a token. -/
def startValue (stack : List Frame) : Token → Option Reader
  | .openRecord => some (.firstMember stack)
  | .openList => some (.firstItem stack)
  | .null => some (.done .null stack)
  | .bool b => some (.done (.bool b) stack)
  | .number n => some (.done (.number n) stack)
  | .text s => some (.done (.text s) stack)
  | _ => none

/-- The reader behind a complete value takes a token. -/
def finishValue (v : Value) : List Frame → Token → Option Reader
  | .list items :: stack, .comma => some (.value (.list (v :: items) :: stack))
  | .list items :: stack, .closeList => some (.done (.list (v :: items).reverse) stack)
  | .record members key :: stack, .comma => some (.name ((key, v) :: members) stack)
  | .record members key :: stack, .closeRecord =>
    some (.done (.record ((key, v) :: members).reverse) stack)
  | _, _ => none

/-- The reader takes a token. -/
def next (r : Reader) (t : Token) : Option Reader :=
  match r with
  | .value stack => startValue stack t
  | .firstItem stack =>
    match t with
    | .closeList => some (.done (.list []) stack)
    | t => startValue (.list [] :: stack) t
  | .firstMember stack =>
    match t with
    | .closeRecord => some (.done (.record []) stack)
    | .text s => some (.colon [] s stack)
    | _ => none
  | .name members stack =>
    match t with
    | .text s => some (.colon members s stack)
    | _ => none
  | .colon members key stack =>
    match t with
    | .colon => some (.value (.record members key :: stack))
    | _ => none
  | .done v stack => finishValue v stack t

/-- The reader takes several tokens. -/
def run (r : Reader) : List Token → Option Reader
  | [] => some r
  | t :: ts => (r.next t).bind fun r => r.run ts

end Reader

/-- The value with exactly these tokens. -/
def Value.ofTokens? (ts : List Token) : Option Value :=
  match (Reader.value []).run ts with
  | some (.done v []) => some v
  | _ => none

/-- The value that a text writes. -/
def Value.read (s : String) : Option Value := (tokens? s.toList).bind Value.ofTokens?

end Signalbox.Json
