import Signalbox.Json.Token
import Signalbox.Json.Writer

/-!
# Written JSON is cut into its tokens

A value that is written without blanks is cut again into the tokens it was written with.  A numeral
needs a look at what follows it, for there is nothing at its end to tell that it is complete; every
other token ends by itself.

* `pieces?_flatMap_escape` : a quoted text is read back, escape by escape;
* `numeral?_unsigned`      : so is a numeral, before anything that cannot continue it;
* `Value.WellFormed.cut`   : a value is cut into its tokens.
-/

set_option autoImplicit false

namespace Signalbox.Json

/-! ## Quoted texts -/

theorem spell_unit {n : Nat} (low : n < 0xd800) (ps : List Piece) :
    spell (.unit n :: ps) = (spell ps).map (Char.ofNat n :: ·) := by
  cases ps with
  | nil => simp [spell, low]
  | cons p ps => cases p <;> simp [spell, low]

theorem hexUnit?_hexDigit : ∀ n < 0x20,
    hexUnit? '0' '0' (hexDigit (n / 16)) (hexDigit (n % 16)) = some n := by decide

/-- A character is written as one piece that spells it. -/
theorem exists_piece (c : Char) : ∃ p : Piece,
    (∀ rest, pieces? (escape c ++ rest) = (pieces? rest).map fun q => (p :: q.1, q.2)) ∧
      ∀ ps, spell (p :: ps) = (spell ps).map (c :: ·) := by
  by_cases letter : c = '"' ∨ c = '\\' ∨ c = '\x08' ∨ c = '\x0c' ∨ c = '\n' ∨ c = '\r' ∨ c = '\t'
  · refine ⟨.char c, fun rest => ?_, fun ps => rfl⟩
    rcases letter with rfl | rfl | rfl | rfl | rfl | rfl | rfl <;> exact Option.map_eq_bind.symm
  simp only [not_or] at letter
  obtain ⟨quote, backslash, b, f, n, r, t⟩ := letter
  by_cases control : c.toNat < 0x20
  · refine ⟨.unit c.toNat, fun rest => ?_, fun ps => ?_⟩
    · simp only [escape, quote, backslash, b, f, n, r, t, control, if_false, if_true,
        List.cons_append, List.nil_append, pieces?, hexUnit?_hexDigit c.toNat control]
      exact Option.map_eq_bind.symm
    · rw [spell_unit (by omega), Char.ofNat_toNat]
  · refine ⟨.char c, fun rest => ?_, fun ps => rfl⟩
    simp only [escape, quote, backslash, b, f, n, r, t, control, if_false, List.singleton_append]
    rw [pieces?.eq_4 _ _ (by simp [quote]) (by simp [backslash]) (by simp [backslash]),
      if_neg (by simp [control, backslash])]
    exact Option.map_eq_bind.symm

/-- **A quoted text is read back** up to its closing quote. -/
theorem pieces?_flatMap_escape (cs rest : List Char) :
    ∃ ps, pieces? (cs.flatMap escape ++ '"' :: rest) = some (ps, rest) ∧ spell ps = some cs := by
  induction cs with
  | nil => exact ⟨[], by simp [pieces?], rfl⟩
  | cons c cs ih =>
    obtain ⟨ps, read, spelled⟩ := ih
    obtain ⟨p, piece, spells⟩ := exists_piece c
    refine ⟨p :: ps, ?_, by rw [spells, spelled]; rfl⟩
    rw [List.flatMap_cons, List.append_assoc, piece, read]
    rfl

/-! ## Numerals -/

/-- One digit or more. -/
def IsDigits (ds : List Char) : Prop := ds ≠ [] ∧ ∀ c ∈ ds, c.isDigit = true

/-- A numeral as the grammar has it. -/
structure Numeral.WellFormed (n : Numeral) : Prop where
  whole : n.whole = ['0'] ∨ IsDigits n.whole ∧ n.whole.head? ≠ some '0'
  fraction : ∀ ds ∈ n.fraction, IsDigits ds
  exponent : ∀ e ∈ n.exponent, IsDigits e.2

/-- No digit comes next. -/
def NoDigit (rest : List Char) : Prop := ∀ c ∈ rest.head?, c.isDigit = false

/-- What comes next does not continue a numeral. -/
def Stops (rest : List Char) : Prop :=
  ∀ c ∈ rest.head?, c.isDigit = false ∧ c ≠ '.' ∧ c ≠ 'e' ∧ c ≠ 'E'

variable {ds rest : List Char}

theorem Stops.noDigit (h : Stops rest) : NoDigit rest := fun c hc => (h c hc).1

theorem digits1?_append (h : IsDigits ds) (stop : NoDigit rest) :
    digits1? (ds ++ rest) = some (ds, rest) := by
  have none : rest.takeWhile Char.isDigit = [] ∧ rest.dropWhile Char.isDigit = rest := by
    cases rest with
    | nil => simp
    | cons c rest => simp [stop c (by simp)]
  simp [digits1?, spanDigits, List.takeWhile_append_of_pos h.2, List.dropWhile_append_of_pos h.2,
    none, h.1]

theorem whole?_append (h : ds = ['0'] ∨ IsDigits ds ∧ ds.head? ≠ some '0') (stop : NoDigit rest) :
    whole? (ds ++ rest) = some (ds, rest) := by
  rcases h with rfl | ⟨digits, noZero⟩
  · rfl
  · rw [whole?.eq_2, digits1?_append digits stop]
    rintro r eq
    cases ds with
    | nil => exact digits.1 rfl
    | cons d ds => simp_all

/-- The fraction of a numeral as it is written. -/
def fractionText : Option (List Char) → List Char
  | some ds => '.' :: ds
  | none => []

/-- The exponent of a numeral as it is written. -/
def exponentText : Option (Bool × List Char) → List Char
  | some (negative, ds) => 'e' :: (if negative then '-' else '+') :: ds
  | none => []

/-- A numeral without its sign, as it is written. -/
def Numeral.unsigned (n : Numeral) : List Char :=
  n.whole ++ (fractionText n.fraction ++ exponentText n.exponent)

theorem Numeral.write_eq (n : Numeral) :
    n.write = (if n.negative then ['-'] else []) ++ n.unsigned := by
  obtain ⟨negative, whole, fraction, exponent⟩ := n
  simp only [write, unsigned, List.append_assoc]
  cases fraction <;> cases exponent <;> rfl

theorem exponent?_exponentText {e : Option (Bool × List Char)} (h : ∀ e' ∈ e, IsDigits e'.2)
    (stops : Stops rest) : exponent? (exponentText e ++ rest) = some (e, rest) := by
  cases e with
  | none =>
    cases rest with
    | nil => rfl
    | cons c rest =>
      obtain ⟨-, -, e, E⟩ := stops c (by simp)
      simp [exponentText, exponent?, e, E]
  | some e =>
    obtain ⟨negative, ds⟩ := e
    have read := digits1?_append (h _ rfl) stops.noDigit
    cases negative <;> simp [exponentText, exponent?, read]

/-- Neither a digit nor a point comes next. -/
def NoFraction (rest : List Char) : Prop := ∀ c ∈ rest.head?, c.isDigit = false ∧ c ≠ '.'

theorem noFraction_exponentText (e : Option (Bool × List Char)) (stops : Stops rest) :
    NoFraction (exponentText e ++ rest) := by
  cases e with
  | none => exact fun c hc => ⟨(stops c hc).1, (stops c hc).2.1⟩
  | some e => simp [NoFraction, exponentText]

theorem fraction?_fractionText {f : Option (List Char)} (h : ∀ ds ∈ f, IsDigits ds)
    (stops : NoFraction rest) : fraction? (fractionText f ++ rest) = some (f, rest) := by
  cases f with
  | none =>
    rw [fractionText, List.nil_append, fraction?.eq_2]
    rintro r rfl
    exact (stops '.' (by simp)).2 rfl
  | some ds =>
    rw [fractionText, List.cons_append, fraction?, digits1?_append (h ds rfl) fun c hc =>
      (stops c hc).1]
    rfl

theorem noDigit_fractionText (f : Option (List Char)) (stops : NoFraction rest) :
    NoDigit (fractionText f ++ rest) := by
  cases f with
  | none => exact fun c hc => (stops c hc).1
  | some ds => simp [NoDigit, fractionText]

/-- **A numeral is read back**, before anything that does not continue it. -/
theorem numeral?_unsigned {n : Numeral} (h : n.WellFormed) (stops : Stops rest) :
    numeral? n.negative (n.unsigned ++ rest) = some (n, rest) := by
  have point := noFraction_exponentText n.exponent stops
  rw [Numeral.unsigned, List.append_assoc, List.append_assoc, numeral?,
    whole?_append h.whole (noDigit_fractionText n.fraction point)]
  simp only [Option.bind_eq_bind, Option.bind_some, fraction?_fractionText h.fraction point,
    exponent?_exponentText h.exponent stops]
  rfl

/-! ## Tokens -/

/-- Behind a character that is no blank, the text goes on with the token that starts there. -/
theorem tokens?_cons {c : Char} {cs : List Char} {t : Token} (space : isSpace c = false)
    (token : tokenAt? c cs = some (t, rest)) : tokens? (c :: cs) = (tokens? rest).map (t :: ·) := by
  rw [tokens?, if_neg (by simp [space])]
  split
  · simp_all
  · simp_all

theorem tokens?_text (cs rest : List Char) :
    tokens? (writeText (some cs) ++ rest) = (tokens? rest).map (.text (some cs) :: ·) := by
  obtain ⟨ps, read, spelled⟩ := pieces?_flatMap_escape cs rest
  have token : tokenAt? '"' (cs.flatMap escape ++ '"' :: rest) =
      some (.text (some cs), rest) := by
    simp only [tokenAt?, read, Option.map_some, spelled]
  rw [writeText, Option.getD_some, List.cons_append, List.append_assoc, List.singleton_append,
    tokens?_cons (by decide) token]

theorem Numeral.WellFormed.exists_digit {n : Numeral} (h : n.WellFormed) :
    ∃ d ds, n.unsigned = d :: ds ∧ d.isDigit = true := by
  rw [unsigned]
  rcases h.whole with zero | ⟨⟨ne, digits⟩, -⟩
  · exact ⟨'0', _, by rw [zero]; rfl, by decide⟩
  · obtain ⟨d, ds, eq⟩ := List.exists_cons_of_ne_nil ne
    exact ⟨d, _, by rw [eq]; rfl, digits d (by simp [eq])⟩

theorem tokenAt?_digit {c : Char} (h : c.isDigit = true) (cs : List Char) :
    tokenAt? c cs = (numeral? false (c :: cs)).map fun q => (.number q.1, q.2) := by
  unfold tokenAt?
  split <;> first | rfl | exact absurd h (by decide)

theorem isSpace_of_isDigit {c : Char} (h : c.isDigit = true) : isSpace c = false := by
  cases space : isSpace c with
  | false => rfl
  | true =>
    simp only [isSpace, Bool.or_eq_true, decide_eq_true_eq] at space
    rcases space with ((rfl | rfl) | rfl) | rfl <;> exact absurd h (by decide)

theorem tokens?_number {n : Numeral} (h : n.WellFormed) (stops : Stops rest) :
    tokens? (n.write ++ rest) = (tokens? rest).map (.number n :: ·) := by
  have read := numeral?_unsigned h stops
  rw [Numeral.write_eq]
  cases negative : n.negative with
  | true =>
    rw [negative] at read
    have token : tokenAt? '-' (n.unsigned ++ rest) = some (.number n, rest) := by
      simp only [tokenAt?, read, Option.map_some]
    exact tokens?_cons (by decide) token
  | false =>
    obtain ⟨d, ds, eq, digit⟩ := h.exists_digit
    rw [negative, eq] at read
    rw [eq]
    have token : tokenAt? d (ds ++ rest) = some (.number n, rest) := by
      rw [tokenAt?_digit digit, ← List.cons_append, read, Option.map_some]
    exact tokens?_cons (isSpace_of_isDigit digit) token

/-! ## Values -/

/-- A value that the grammar has: its numerals are well formed and its texts have characters. -/
inductive Value.WellFormed : Value → Prop
  | null : WellFormed .null
  | bool (b : Bool) : WellFormed (.bool b)
  | number {n : Numeral} (h : n.WellFormed) : WellFormed (.number n)
  | text (cs : List Char) : WellFormed (.text (some cs))
  | list {vs : List Value} (items : ∀ v ∈ vs, WellFormed v) : WellFormed (.list vs)
  | record {ms : List (Quoted × Value)} (names : ∀ m ∈ ms, m.1.isSome)
      (values : ∀ m ∈ ms, WellFormed m.2) : WellFormed (.record ms)

mutual

/-- The tokens that a value is written with. -/
def Value.tokens : Value → List Token
  | .null => [.null]
  | .bool b => [.bool b]
  | .number n => [.number n]
  | .text s => [.text s]
  | .list vs => .openList :: (itemTokens vs ++ [.closeList])
  | .record ms => .openRecord :: (memberTokens ms ++ [.closeRecord])

/-- The tokens of items with commas between them. -/
def itemTokens : List Value → List Token
  | [] => []
  | [v] => v.tokens
  | v :: vs => v.tokens ++ .comma :: itemTokens vs

/-- The tokens of members with commas between them. -/
def memberTokens : List (Quoted × Value) → List Token
  | [] => []
  | [(k, v)] => .text k :: .colon :: v.tokens
  | (k, v) :: ms => .text k :: .colon :: (v.tokens ++ .comma :: memberTokens ms)

end

/-- The text of the value, before anything that ends it, is cut into its tokens. -/
def Value.Cut (v : Value) : Prop :=
  ∀ rest, Stops rest → tokens? (v.write ++ rest) = (tokens? rest).map (v.tokens ++ ·)

/-- The token of a bracket or a separator. -/
def mark? : Char → Option Token
  | '{' => some .openRecord
  | '}' => some .closeRecord
  | '[' => some .openList
  | ']' => some .closeList
  | ':' => some .colon
  | ',' => some .comma
  | _ => none

theorem tokens?_mark {c : Char} {t : Token} (mark : mark? c = some t) (rest : List Char) :
    tokens? (c :: rest) = (tokens? rest).map (t :: ·) := by
  unfold mark? at mark
  split at mark <;> cases mark <;> exact tokens?_cons (by decide) rfl

theorem stops_cons {c : Char} (h : c = ',' ∨ c = ']' ∨ c = '}') (cs : List Char) :
    Stops (c :: cs) := by
  rcases h with rfl | rfl | rfl <;> simp [Stops]

theorem tokens?_writeItems {vs : List Value} (cut : ∀ v ∈ vs, v.Cut) (rest : List Char) :
    tokens? (writeItems vs ++ ']' :: rest) =
      (tokens? rest).map fun ts => itemTokens vs ++ .closeList :: ts := by
  induction vs with
  | nil => exact tokens?_mark rfl rest
  | cons v vs ih =>
    have first := cut v (by simp)
    cases vs with
    | nil =>
      rw [writeItems, itemTokens, first _ (stops_cons (by simp) _), tokens?_mark (c := ']') rfl,
        Option.map_map]
      rfl
    | cons w vs =>
      have others := ih fun v' h => cut v' (by simp [h])
      rw [writeItems, itemTokens, List.append_assoc, List.cons_append,
        first _ (stops_cons (by simp) _), tokens?_mark (c := ',') rfl, others]
      · simp [Function.comp_def]
      all_goals simp

theorem tokens?_writeMembers {ms : List (Quoted × Value)} (names : ∀ m ∈ ms, m.1.isSome)
    (cut : ∀ m ∈ ms, m.2.Cut) (rest : List Char) :
    tokens? (writeMembers ms ++ '}' :: rest) =
      (tokens? rest).map fun ts => memberTokens ms ++ .closeRecord :: ts := by
  induction ms with
  | nil => exact tokens?_mark rfl rest
  | cons m ms ih =>
    obtain ⟨k, v⟩ := m
    obtain ⟨k, rfl⟩ := Option.isSome_iff_exists.1 (names (k, v) (by simp))
    have first := cut (some k, v) (by simp)
    cases ms with
    | nil =>
      rw [writeMembers, memberTokens, List.append_assoc, tokens?_text, List.cons_append,
        tokens?_mark (c := ':') rfl, first _ (stops_cons (by simp) _), tokens?_mark (c := '}') rfl]
      simp [Function.comp_def]
    | cons m' ms =>
      have others := ih (fun m h => names m (by simp [h])) fun m h => cut m (by simp [h])
      rw [writeMembers, memberTokens, List.append_assoc, tokens?_text, List.cons_append,
        tokens?_mark (c := ':') rfl, List.append_assoc, List.cons_append,
        first _ (stops_cons (by simp) _), tokens?_mark (c := ',') rfl, others]
      · simp [Function.comp_def]
      all_goals simp

/-- **A written value is cut into its tokens.** -/
theorem Value.WellFormed.cut {v : Value} (h : v.WellFormed) : v.Cut := by
  intro rest stops
  induction h generalizing rest with
  | null => exact tokens?_cons (by decide) rfl
  | bool b => cases b <;> exact tokens?_cons (by decide) rfl
  | number h => exact tokens?_number h stops
  | text cs => exact tokens?_text cs rest
  | list items ih =>
    rw [write, tokens, List.cons_append, List.append_assoc, tokens?_mark (c := '[') rfl,
      List.singleton_append, tokens?_writeItems (fun v h rest stops => ih v h rest stops)]
    simp [Function.comp_def]
  | record names values ih =>
    rw [write, tokens, List.cons_append, List.append_assoc, tokens?_mark (c := '{') rfl,
      List.singleton_append, tokens?_writeMembers names (fun m h rest stops => ih m h rest stops)]
    simp [Function.comp_def]

end Signalbox.Json
