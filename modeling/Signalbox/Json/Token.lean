import Signalbox.Json.Value

/-!
# JSON tokens

A text is cut into brackets, separators, words, numbers and quoted texts; blanks between them are
skipped.  A numeral has no leading zero, and a point or an exponent is followed by a digit.  Inside
quotes, control characters are refused and escapes are resolved.

* `token?` : the first token of a text, and the rest, which is shorter;
* `tokens?` : all tokens of a text.
-/

set_option autoImplicit false

namespace Signalbox.Json

/-- A token of JSON. -/
inductive Token where
  | openRecord
  | closeRecord
  | openList
  | closeList
  | colon
  | comma
  | null
  | bool (b : Bool)
  | number (n : Numeral)
  | text (s : Quoted)
deriving DecidableEq, Inhabited

/-- Space, tab, line feed and carriage return. -/
def isSpace (c : Char) : Bool := c = ' ' || c = '\t' || c = '\n' || c = '\r'

/-! ## Numerals -/

/-- The digits at the start of a text, and the rest. -/
def spanDigits (cs : List Char) : List Char × List Char :=
  (cs.takeWhile Char.isDigit, cs.dropWhile Char.isDigit)

/-- One digit or more at the start of a text. -/
def digits1? (cs : List Char) : Option (List Char × List Char) :=
  let (ds, rest) := spanDigits cs
  if ds.isEmpty then none else some (ds, rest)

/-- The whole part of a numeral: a single zero, or digits that do not start with one. -/
def whole? : List Char → Option (List Char × List Char)
  | '0' :: rest => some (['0'], rest)
  | cs => digits1? cs

/-- The fraction of a numeral, if a point starts one. -/
def fraction? : List Char → Option (Option (List Char) × List Char)
  | '.' :: rest => (digits1? rest).map fun (ds, rest) => (some ds, rest)
  | cs => some (none, cs)

/-- The exponent of a numeral, if an `e` starts one. -/
def exponent? : List Char → Option (Option (Bool × List Char) × List Char)
  | c :: rest =>
    if c = 'e' ∨ c = 'E' then
      match rest with
      | '+' :: rest => (digits1? rest).map fun (ds, rest) => (some (false, ds), rest)
      | '-' :: rest => (digits1? rest).map fun (ds, rest) => (some (true, ds), rest)
      | rest => (digits1? rest).map fun (ds, rest) => (some (false, ds), rest)
    else some (none, c :: rest)
  | [] => some (none, [])

/-- A numeral without its sign. -/
def numeral? (negative : Bool) (cs : List Char) : Option (Numeral × List Char) := do
  let (whole, cs) ← whole? cs
  let (fraction, cs) ← fraction? cs
  let (exponent, cs) ← exponent? cs
  return ({ negative, whole, fraction, exponent }, cs)

/-! ## Quoted texts -/

/-- What stands for one character between quotes, or for half of one. -/
inductive Piece where
  | char (c : Char)
  /-- A four-digit escape. -/
  | unit (n : Nat)
deriving DecidableEq

/-- The value of a hexadecimal digit. -/
def hexValue? (c : Char) : Option Nat :=
  if '0' ≤ c ∧ c ≤ '9' then some (c.toNat - 48)
  else if 'a' ≤ c ∧ c ≤ 'f' then some (c.toNat - 87)
  else if 'A' ≤ c ∧ c ≤ 'F' then some (c.toNat - 55)
  else none

/-- The value of four hexadecimal digits. -/
def hexUnit? (a b c d : Char) : Option Nat := do
  return (((← hexValue? a) * 16 + (← hexValue? b)) * 16 + (← hexValue? c)) * 16 + (← hexValue? d)

/-- The character that a one-letter escape names. -/
def shortEscape? : Char → Option Char
  | '"' => some '"'
  | '\\' => some '\\'
  | '/' => some '/'
  | 'b' => some '\x08'
  | 'f' => some '\x0c'
  | 'n' => some '\n'
  | 'r' => some '\r'
  | 't' => some '\t'
  | _ => none

/-- The pieces up to the closing quote, and the rest behind it. -/
def pieces? : List Char → Option (List Piece × List Char)
  | '"' :: rest => some ([], rest)
  | '\\' :: 'u' :: a :: b :: c :: d :: rest => do
    let n ← hexUnit? a b c d
    let (ps, rest) ← pieces? rest
    return (.unit n :: ps, rest)
  | '\\' :: e :: rest => do
    let c ← shortEscape? e
    let (ps, rest) ← pieces? rest
    return (.char c :: ps, rest)
  | c :: rest =>
    if c.toNat < 0x20 ∨ c = '\\' then none
    else do
      let (ps, rest) ← pieces? rest
      return (.char c :: ps, rest)
  | [] => none

/-- The characters that the pieces spell.  Halves of surrogate pairs must stand side by side. -/
def spell : List Piece → Quoted
  | [] => some []
  | .char c :: ps => (spell ps).map (c :: ·)
  | .unit n :: .unit m :: ps =>
    if n < 0xd800 ∨ 0xdfff < n then (spell (.unit m :: ps)).map (Char.ofNat n :: ·)
    else if n < 0xdc00 ∧ 0xdc00 ≤ m ∧ m ≤ 0xdfff then
      (spell ps).map (Char.ofNat (0x10000 + (n - 0xd800) * 0x400 + (m - 0xdc00)) :: ·)
    else none
  | .unit n :: ps =>
    if n < 0xd800 ∨ 0xdfff < n then (spell ps).map (Char.ofNat n :: ·) else none

/-! ## Tokens -/

/-- The token that starts with `c`, and what follows it. -/
def tokenAt? (c : Char) (rest : List Char) : Option (Token × List Char) :=
  match c, rest with
  | '{', rest => some (.openRecord, rest)
  | '}', rest => some (.closeRecord, rest)
  | '[', rest => some (.openList, rest)
  | ']', rest => some (.closeList, rest)
  | ':', rest => some (.colon, rest)
  | ',', rest => some (.comma, rest)
  | 'n', 'u' :: 'l' :: 'l' :: rest => some (.null, rest)
  | 't', 'r' :: 'u' :: 'e' :: rest => some (.bool true, rest)
  | 'f', 'a' :: 'l' :: 's' :: 'e' :: rest => some (.bool false, rest)
  | '"', rest => (pieces? rest).map fun (ps, rest) => (.text (spell ps), rest)
  | '-', rest => (numeral? true rest).map fun (n, rest) => (.number n, rest)
  | c, rest => (numeral? false (c :: rest)).map fun (n, rest) => (.number n, rest)

/-! ## The rest is shorter -/

theorem length_digits1? {cs ds rest : List Char} (h : digits1? cs = some (ds, rest)) :
    rest.length < cs.length := by
  have hs : spanDigits cs = (cs.takeWhile Char.isDigit, cs.dropWhile Char.isDigit) := rfl
  simp only [digits1?, hs] at h
  split at h
  · simp at h
  · rename_i hne
    simp only [Option.some.injEq, Prod.mk.injEq] at h
    have hl := congrArg List.length (List.takeWhile_append_dropWhile (p := Char.isDigit) (l := cs))
    rw [List.length_append] at hl
    have : 0 < (cs.takeWhile Char.isDigit).length := by
      rw [List.length_pos_iff]; simpa using hne
    rw [← h.2]; omega

theorem length_whole? {cs ds rest : List Char} (h : whole? cs = some (ds, rest)) :
    rest.length < cs.length := by
  unfold whole? at h
  split at h
  · simp only [Option.some.injEq, Prod.mk.injEq] at h
    simp [← h.2]
  · exact length_digits1? h

theorem length_fraction? {cs rest : List Char} {f : Option (List Char)}
    (h : fraction? cs = some (f, rest)) : rest.length ≤ cs.length := by
  unfold fraction? at h
  split at h
  · rw [Option.map_eq_some_iff] at h
    obtain ⟨⟨ds, r⟩, hd, he⟩ := h
    have := length_digits1? hd
    simp only [Prod.mk.injEq] at he
    simp only [List.length_cons, ← he.2]; omega
  · simp only [Option.some.injEq, Prod.mk.injEq] at h
    simp [h.2]

theorem length_exponent? {cs rest : List Char} {e : Option (Bool × List Char)}
    (h : exponent? cs = some (e, rest)) : rest.length ≤ cs.length := by
  unfold exponent? at h
  split at h
  · split at h
    · split at h <;>
      · rw [Option.map_eq_some_iff] at h
        obtain ⟨⟨ds, r⟩, hd, he⟩ := h
        have := length_digits1? hd
        simp only [Prod.mk.injEq] at he
        simp only [List.length_cons, ← he.2] at *; omega
    · simp only [Option.some.injEq, Prod.mk.injEq] at h
      simp [← h.2]
  · simp only [Option.some.injEq, Prod.mk.injEq] at h
    simp [← h.2]

theorem length_numeral? {b : Bool} {cs rest : List Char} {n : Numeral}
    (h : numeral? b cs = some (n, rest)) : rest.length < cs.length := by
  simp only [numeral?, Option.bind_eq_bind, Option.bind_eq_some_iff] at h
  obtain ⟨⟨w, c1⟩, h1, ⟨f, c2⟩, h2, ⟨e, c3⟩, h3, h4⟩ := h
  have l1 : c1.length < cs.length := length_whole? h1
  have l2 : c2.length ≤ c1.length := length_fraction? h2
  have l3 : c3.length ≤ c2.length := length_exponent? h3
  simp only [Option.pure_def, Option.some.injEq, Prod.mk.injEq] at h4
  rw [← h4.2]; omega

theorem length_pieces? {cs rest : List Char} {ps : List Piece}
    (h : pieces? cs = some (ps, rest)) : rest.length < cs.length := by
  fun_induction pieces? cs generalizing ps rest with
  | case1 r => simp only [Option.some.injEq, Prod.mk.injEq] at h; simp [← h.2]
  | case2 a b c d r ih =>
    simp only [Option.bind_eq_bind, Option.bind_eq_some_iff] at h
    obtain ⟨n, _, ⟨qs, q⟩, hq, he⟩ := h
    have := ih hq
    simp only [Option.pure_def, Option.some.injEq, Prod.mk.injEq] at he
    simp only [List.length_cons, ← he.2]; omega
  | case3 e r _ ih =>
    simp only [Option.bind_eq_bind, Option.bind_eq_some_iff] at h
    obtain ⟨n, _, ⟨qs, q⟩, hq, he⟩ := h
    have := ih hq
    simp only [Option.pure_def, Option.some.injEq, Prod.mk.injEq] at he
    simp only [List.length_cons, ← he.2]; omega
  | case4 => simp at h
  | case5 c r _ _ _ _ ih =>
    simp only [Option.bind_eq_bind, Option.bind_eq_some_iff] at h
    obtain ⟨⟨qs, q⟩, hq, he⟩ := h
    have := ih hq
    simp only [Option.pure_def, Option.some.injEq, Prod.mk.injEq] at he
    simp only [List.length_cons, ← he.2]; omega
  | case6 => simp at h

theorem length_tokenAt? {c : Char} {rest rest' : List Char} {t : Token}
    (h : tokenAt? c rest = some (t, rest')) : rest'.length ≤ rest.length := by
  unfold tokenAt? at h
  split at h
  case h_10 =>
    rw [Option.map_eq_some_iff] at h
    obtain ⟨⟨ps, r⟩, hd, he⟩ := h
    have := length_pieces? hd
    simp only [Prod.mk.injEq] at he
    rw [← he.2]; omega
  case h_11 =>
    rw [Option.map_eq_some_iff] at h
    obtain ⟨⟨n, r⟩, hd, he⟩ := h
    have := length_numeral? hd
    simp only [Prod.mk.injEq] at he
    rw [← he.2]; omega
  case h_12 =>
    rw [Option.map_eq_some_iff] at h
    obtain ⟨⟨n, r⟩, hd, he⟩ := h
    have := length_numeral? hd
    simp only [Prod.mk.injEq] at he
    simp only [List.length_cons] at this
    rw [← he.2]; omega
  all_goals
    simp only [Option.some.injEq, Prod.mk.injEq] at h
    simp only [List.length_cons, ← h.2]; omega

/-- All tokens of a text. -/
def tokens? : List Char → Option (List Token)
  | [] => some []
  | c :: rest =>
    if isSpace c then tokens? rest
    else
      match _h : tokenAt? c rest with
      | none => none
      | some (t, rest') => (tokens? rest').map (t :: ·)
termination_by cs => cs.length
decreasing_by
  · simp
  · have := length_tokenAt? _h
    simp only [List.length_cons]; omega

end Signalbox.Json
