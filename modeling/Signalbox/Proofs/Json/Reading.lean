import Signalbox.Json.Reader
import Signalbox.Proofs.Json.Tokens

/-!
# Written JSON is read back

The machine that reads JSON puts a value together from the tokens it is written with, whatever is
open around it, and comes to stand behind it.  With the tokens of the text this reads every value
back from its text, also with blanks around it:

* `Reader.run_tokens` : the tokens of a value put it together;
* `Value.read_write`  : the text of a value is read back.
-/

set_option autoImplicit false

namespace Signalbox.Json

namespace Reader

variable {stack : List Frame} {ts : List Token}

/-- The reader puts the value together from its tokens. -/
def Builds (v : Value) : Prop :=
  ∀ stack ts, (value stack).run (v.tokens ++ ts) = (done v stack).run ts

/-- No item starts with the end of a list, so the reader takes the first one as it takes the
others. -/
theorem run_firstItem (v : Value) (vs : List Value) :
    (firstItem stack).run (itemTokens (v :: vs) ++ ts) =
      (value (.list [] :: stack)).run (itemTokens (v :: vs) ++ ts) := by
  cases vs <;> cases v <;> rfl

theorem run_firstMember (m : Quoted × Value) (ms : List (Quoted × Value)) :
    (firstMember stack).run (memberTokens (m :: ms) ++ ts) =
      (name [] stack).run (memberTokens (m :: ms) ++ ts) := by
  cases ms <;> rfl

/-- Items are read one after the other, behind those that are read. -/
theorem run_itemTokens {v : Value} {vs : List Value} (builds : ∀ w ∈ v :: vs, Builds w)
    (read : List Value) :
    (value (.list read :: stack)).run (itemTokens (v :: vs) ++ .closeList :: ts) =
      (done (.list (read.reverse ++ v :: vs)) stack).run ts := by
  induction vs generalizing v read with
  | nil =>
    rw [itemTokens, builds v (by simp)]
    simp [run, next, finishValue]
  | cons w vs ih =>
    rw [itemTokens, List.append_assoc, builds v (by simp), List.cons_append]
    · show (value (.list (v :: read) :: stack)).run _ = _
      rw [ih fun u h => builds u (by simp [h])]
      simp
    · simp

theorem run_memberTokens {m : Quoted × Value} {ms : List (Quoted × Value)}
    (builds : ∀ w ∈ m :: ms, Builds w.2) (read : List (Quoted × Value)) :
    (name read stack).run (memberTokens (m :: ms) ++ .closeRecord :: ts) =
      (done (.record (read.reverse ++ m :: ms)) stack).run ts := by
  induction ms generalizing m read with
  | nil =>
    obtain ⟨k, v⟩ := m
    show (value (.record read k :: stack)).run (v.tokens ++ _) = _
    rw [builds (k, v) (by simp)]
    simp [run, next, finishValue]
  | cons m' ms ih =>
    obtain ⟨k, v⟩ := m
    rw [memberTokens]
    · show (value (.record read k :: stack)).run ((v.tokens ++ _) ++ _) = _
      rw [List.append_assoc, builds (k, v) (by simp), List.cons_append]
      show (name ((k, v) :: read) stack).run _ = _
      rw [ih fun u h => builds u (by simp [h])]
      simp
    · simp

/-- **The tokens of a value put it together**, whatever is open around it. -/
theorem run_tokens {v : Value} (h : v.WellFormed) : Builds v := by
  intro stack ts
  induction h generalizing stack ts with
  | null | bool | number | text => rfl
  | @list vs items ih =>
    rw [Value.tokens, List.cons_append, List.append_assoc, List.singleton_append]
    cases vs with
    | nil => rfl
    | cons v vs =>
      show (firstItem stack).run _ = _
      rw [run_firstItem, run_itemTokens ih]
      rfl
  | @record ms names values ih =>
    rw [Value.tokens, List.cons_append, List.append_assoc, List.singleton_append]
    cases ms with
    | nil => rfl
    | cons m ms =>
      show (firstMember stack).run _ = _
      rw [run_firstMember, run_memberTokens ih]
      rfl

end Reader

/-! ## Texts -/

theorem tokens?_blanks {before : List Char} (blank : ∀ c ∈ before, isSpace c = true)
    (cs : List Char) : tokens? (before ++ cs) = tokens? cs := by
  induction before with
  | nil => rfl
  | cons c before ih =>
    rw [List.cons_append, tokens?, if_pos (blank c (by simp)), ih fun c' h => blank c' (by simp [h])]

theorem stops_blanks {after : List Char} (blank : ∀ c ∈ after, isSpace c = true) : Stops after := by
  intro c hc
  have space := blank c (List.mem_of_mem_head? hc)
  simp only [isSpace, Bool.or_eq_true, decide_eq_true_eq] at space
  rcases space with ((rfl | rfl) | rfl) | rfl <;> decide

/-- **The text of a value is read back**, also with blanks around it. -/
theorem Value.read_write {v : Value} (h : v.WellFormed) {before after : List Char}
    (blankBefore : ∀ c ∈ before, isSpace c = true) (blankAfter : ∀ c ∈ after, isSpace c = true) :
    read (String.ofList (before ++ (v.write ++ after))) = some v := by
  have nothing : tokens? after = some [] := by
    simpa [tokens?] using tokens?_blanks blankAfter []
  have tokens : tokens? (before ++ (v.write ++ after)) = some (v.tokens ++ []) := by
    rw [tokens?_blanks blankBefore, h.cut after (stops_blanks blankAfter), nothing]
    rfl
  rw [read, String.toList_ofList, tokens, Option.bind_some, ofTokens?, Reader.run_tokens h [] []]
  rfl

end Signalbox.Json
