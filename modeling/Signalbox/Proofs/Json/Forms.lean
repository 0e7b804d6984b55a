import Mathlib.Data.List.Basic
import Signalbox.Json.Types
import Signalbox.Proofs.Json.Reading

/-!
# Written values come back

Every value of a type whose written form has no fractions is read back from its text, with any
characters in its texts and any numbers that fit its words.  Each form is taken on its own here:

* `Form.Lawful`  : the form of a type writes well-formed values and reads its own values;
* `read?_write`  : all lawful forms of the library are read back from their texts.

What a record leaves out and what it writes as `null` are read alike, so an optional field needs
that the form of its type never writes `null` itself.
-/

set_option autoImplicit false

namespace Signalbox.Json

/-- A form that reads back what it writes, and writes no value as `null`. -/
class Form.Lawful (α : Type) [Form α] : Prop where
  wellFormed (a : α) : (Form.toValue a).WellFormed
  ne_null (a : α) : Form.toValue a ≠ .null
  ofValue?_toValue (a : α) : Form.ofValue? (Form.toValue a) = some a

open Form.Lawful

attribute [simp] Form.Lawful.wellFormed Form.Lawful.ne_null Form.Lawful.ofValue?_toValue

/-! ## Numbers -/

/-- Only the digits of zero start with a zero. -/
theorem head?_digits {n : Nat} (h : 0 < n) : (Decimal.digits n).head? ≠ some '0' := by
  rw [Decimal.digits]
  split
  · have nonzero : ∀ d < 10, 0 < d → [Decimal.digitChar d].head? ≠ some '0' := by decide
    exact nonzero n (by assumption) h
  · rw [List.head?_append_of_ne_nil _ (Decimal.digits_ne_nil _)]
    exact head?_digits (by omega)
termination_by n

theorem wellFormed_digits (negative : Bool) (n : Nat) :
    Numeral.WellFormed { negative, whole := Decimal.digits n } where
  whole := by
    rcases Nat.eq_zero_or_pos n with rfl | pos
    · exact .inl (by rw [Decimal.digits]; rfl)
    · exact .inr ⟨⟨Decimal.digits_ne_nil n, fun c hc => Decimal.isDigit_of_mem_digits hc⟩,
        head?_digits pos⟩
  fraction := by simp
  exponent := by simp

@[simp] theorem wellFormed_ofNat (n : Nat) : (Value.ofNat n).WellFormed :=
  .number (wellFormed_digits false n)

@[simp] theorem wellFormed_ofInt (i : Int) : (Value.ofInt i).WellFormed := by
  cases i with
  | ofNat n => exact wellFormed_ofNat n
  | negSucc n => exact .number (wellFormed_digits true (n + 1))

theorem natValue?_ofNat {n : Nat} (bound : Nat) (h : n < bound) :
    natValue? bound (.ofNat n) = some n := by
  simp [natValue?, Value.ofNat, Numeral.natBelow?, Numeral.integer?, Decimal.value_digits, h]

theorem exists_ofInt (i : Int) : ∃ n : Numeral, Value.ofInt i = .number n ∧ n.integer? = some i := by
  cases i with
  | ofNat n => exact ⟨_, rfl, by simp [Numeral.integer?, Decimal.value_digits]⟩
  | negSucc n =>
    refine ⟨_, rfl, ?_⟩
    simp [Numeral.integer?, Decimal.value_digits]
    omega

instance : Form.Lawful UInt16 where
  wellFormed n := wellFormed_ofNat n.toNat
  ne_null n := nofun
  ofValue?_toValue n := by
    simp [Form.toValue, Form.ofValue?, natValue?_ofNat size16 n.toNat_lt]

instance : Form.Lawful UInt64 where
  wellFormed n := wellFormed_ofNat n.toNat
  ne_null n := nofun
  ofValue?_toValue n := by
    simp [Form.toValue, Form.ofValue?, natValue?_ofNat size64 n.toNat_lt]

instance : Form.Lawful Int32 where
  wellFormed i := wellFormed_ofInt i.toInt
  ne_null i := by
    obtain ⟨n, written, -⟩ := exists_ofInt i.toInt
    simp [Form.toValue, written]
  ofValue?_toValue i := by
    obtain ⟨n, written, value⟩ := exists_ofInt i.toInt
    have low := i.le_toInt
    have high := i.toInt_lt
    simp [Form.toValue, Form.ofValue?, written, value, negatives32]
    omega

/-! ## Texts, lists, enumerations -/

instance : Form.Lawful String where
  wellFormed s := .text s.toList
  ne_null s := nofun
  ofValue?_toValue s := by simp [Form.toValue, Form.ofValue?, Value.ofString]

instance : Form.Lawful Bool where
  wellFormed := .bool
  ne_null _ := nofun
  ofValue?_toValue _ := rfl

instance {α : Type} [Form α] [Form.Lawful α] : Form.Lawful (List α) where
  wellFormed as := .list fun v mem => by
    obtain ⟨a, -, rfl⟩ := List.mem_map.1 mem
    exact wellFormed a
  ne_null as := nofun
  ofValue?_toValue as := by
    show (as.map Form.toValue).mapM Form.ofValue? = some as
    induction as with
    | nil => rfl
    | cons a as ih => simp [ih]

theorem enumValue?_ofString {α : Type} {all : List α} {name : α → String} {a : α}
    (found : all.find? (fun b => name b = name a) = some a) :
    enumValue? all name (.ofString (name a)) = some a := by
  simp [enumValue?, variant?, Value.ofString, found]

instance : Form.Lawful NodeKind where
  wellFormed k := .text _
  ne_null k := nofun
  ofValue?_toValue k := enumValue?_ofString (by cases k <;> decide)

instance : Form.Lawful Objective where
  wellFormed o := .text _
  ne_null o := nofun
  ofValue?_toValue o := enumValue?_ofString (by cases o <;> decide)

instance : Form.Lawful ResourceKind where
  wellFormed k := .text _
  ne_null k := nofun
  ofValue?_toValue k := enumValue?_ofString (by cases k <;> decide)

instance : Form.Lawful Aspect where
  wellFormed a := .text _
  ne_null a := nofun
  ofValue?_toValue a := enumValue?_ofString (by cases a <;> decide)

/-! ## Names and instants -/

instance {r : IdentRole} : Form.Lawful (Ident r) where
  wellFormed i := wellFormed i.text
  ne_null i := ne_null i.text
  ofValue?_toValue i := congrArg (Option.map Ident.mk) (ofValue?_toValue i.text)

instance : Form.Lawful Timestamp where
  wellFormed t := wellFormed t.ms
  ne_null t := ne_null t.ms
  ofValue?_toValue t := congrArg (Option.map Timestamp.mk) (ofValue?_toValue t.ms)

instance : Form.Lawful Signature where
  wellFormed s := wellFormed s.word
  ne_null s := ne_null s.word
  ofValue?_toValue s := congrArg (Option.map Signature.mk) (ofValue?_toValue s.word)

/-! ## Records -/

theorem wellFormed_ofFields {fields : List (String × Value)} (h : ∀ f ∈ fields, f.2.WellFormed) :
    (Value.ofFields fields).WellFormed := by
  refine .record (fun m mem => ?_) fun m mem => ?_ <;>
    obtain ⟨f, hf, rfl⟩ := List.mem_map.1 mem
  · rfl
  · exact h f hf

theorem member?_ofFields {fields : List (String × Value)} (distinct : (fields.map Prod.fst).Nodup)
    {f : String × Value} (mem : f ∈ fields) :
    member? (fields.map fun (k, v) => (some k.toList, v)) f.1 = some f.2 := by
  induction fields with
  | nil => cases mem
  | cons g fields ih =>
    obtain ⟨new, distinct⟩ := List.nodup_cons.1 distinct
    rcases List.mem_cons.1 mem with rfl | mem
    · simp [member?]
    · have other : g.1.toList ≠ f.1.toList := fun same =>
        new (String.toList_inj.1 same ▸ List.mem_map_of_mem mem)
      rw [← ih distinct mem, member?, List.map_cons, List.find?_cons_of_neg (by simpa using other)]
      rfl

@[simp] theorem fields?_ofFields {fields : List (String × Value)} {names : List String} (short : Bool)
    (named : fields.map Prod.fst = names) (distinct : names.Nodup) :
    (Value.ofFields fields).fields? names short = some (fields.map fun f => some f.2) := by
  subst named
  have known : wellNamed (fields.map Prod.fst) (fields.map fun (k, v) => (some k.toList, v)) := by
    have once (n : String) : (fields.countP fun f => f.1 = n) ≤ 1 := by
      have := List.nodup_iff_count.1 distinct n
      rwa [List.count, List.countP_map] at this
    simp only [wellNamed, Bool.and_eq_true, List.all_eq_true, decide_eq_true_eq]
    constructor
    · intro m mem
      obtain ⟨f, -, rfl⟩ := List.mem_map.1 mem
      rfl
    · intro n _
      rw [List.countP_map]
      simpa [Function.comp_def, String.toList_inj] using once n
  rw [Value.ofFields, Value.fields?, if_pos known, List.map_map]
  exact congrArg some (List.map_congr_left fun f mem => member?_ofFields distinct mem)

@[simp] theorem required_toValue {α : Type} [Form α] [Form.Lawful α] (a : α) :
    required (some (Form.toValue a)) = some a := ofValue?_toValue a

@[simp] theorem orDefault_toValue {α : Type} [Form α] [Form.Lawful α] (d a : α) :
    orDefault d (some (Form.toValue a)) = some a := ofValue?_toValue a

@[simp] theorem optional_toValue {α : Type} [Form α] [Form.Lawful α] (o : Option α) :
    optional (some (Form.toValue o)) = some o := by
  cases o with
  | none => rfl
  | some a =>
    show optional (some (Form.toValue a)) = _
    rw [optional, ofValue?_toValue, Option.map_some]
    exact ne_null a

@[simp] theorem wellFormed_option {α : Type} [Form α] [Form.Lawful α] (o : Option α) :
    (Form.toValue o).WellFormed := by
  cases o with
  | none => exact .null
  | some a => exact wellFormed a

instance : Form.Lawful Cell where
  wellFormed _ := wellFormed_ofFields (by simp)
  ne_null _ := nofun
  ofValue?_toValue _ := by
    unfold instFormCell
    simp

instance : Form.Lawful Details where
  wellFormed _ := wellFormed_ofFields (by simp)
  ne_null _ := nofun
  ofValue?_toValue _ := by
    unfold instFormDetails
    simp

instance : Form.Lawful Node where
  wellFormed _ := wellFormed_ofFields (by simp)
  ne_null _ := nofun
  ofValue?_toValue _ := by
    unfold instFormNode
    simp

instance : Form.Lawful Ends where
  wellFormed _ := wellFormed_ofFields (by simp)
  ne_null _ := nofun
  ofValue?_toValue _ := by
    unfold instFormEnds
    simp

instance : Form.Lawful Resource where
  wellFormed _ := wellFormed_ofFields (by simp)
  ne_null _ := nofun
  ofValue?_toValue _ := by
    unfold instFormResource
    simp

instance : Form.Lawful Claim where
  wellFormed _ := wellFormed_ofFields (by simp)
  ne_null _ := nofun
  ofValue?_toValue _ := by
    unfold instFormClaim
    simp

instance : Form.Lawful Request where
  wellFormed _ := wellFormed_ofFields (by simp)
  ne_null _ := nofun
  ofValue?_toValue _ := by
    unfold instFormRequest
    simp

instance : Form.Lawful HeadwaySettings where
  wellFormed _ := wellFormed_ofFields (by simp)
  ne_null _ := nofun
  ofValue?_toValue _ := by
    unfold instFormHeadwaySettings
    simp

/-! ## Texts -/

/-- Every value of the type is read back from its text, also with blanks around it. -/
def ReadsBack (α : Type) [Form α] : Prop :=
  ∀ (a : α) (before after : String), (∀ c ∈ before.toList, isSpace c = true) →
    (∀ c ∈ after.toList, isSpace c = true) → read? (before ++ write a ++ after) = some a

theorem readsBack (α : Type) [Form α] [Form.Lawful α] : ReadsBack α := by
  intro a before after blankBefore blankAfter
  have text : before ++ write a ++ after =
      String.ofList (before.toList ++ ((Form.toValue a).write ++ after.toList)) := by
    simp [write, Value.toText, String.ofList_append, String.append_assoc]
  rw [text, read?, Value.read_write (wellFormed a) blankBefore blankAfter, Option.bind_some,
    ofValue?_toValue]

/-- **Written values come back**: names, cells, instants, signatures, and all that is put together
from them without fractions. -/
theorem read?_write :
    (∀ r, ReadsBack (Ident r)) ∧ ReadsBack Cell ∧ ReadsBack Timestamp ∧ ReadsBack Signature ∧
      ReadsBack NodeKind ∧ ReadsBack Details ∧ ReadsBack Node ∧ ReadsBack Ends ∧
      ReadsBack Objective ∧ ReadsBack Resource ∧ ReadsBack Claim ∧ ReadsBack Request ∧
      ReadsBack Aspect ∧ ReadsBack HeadwaySettings :=
  ⟨fun _ => readsBack _, readsBack _, readsBack _, readsBack _, readsBack _, readsBack _,
    readsBack _, readsBack _, readsBack _, readsBack _, readsBack _, readsBack _, readsBack _,
    readsBack _⟩

/-- A request with control characters, quotes and a character beyond the first plane in its texts,
at the last instant. -/
def lastRequest : Request :=
  { holder := ⟨"\x00\x1f\x7f\"\\/🚄"⟩, now := ⟨18446744073709551615⟩
    resources := [⟨.edge, "a -> b\r\n\t"⟩, ⟨.custom, ""⟩] }

theorem read?_write_lastRequest :
    (∀ c ∈ " \t".toList, isSpace c = true) ∧ (∀ c ∈ "\r\n".toList, isSpace c = true) ∧
      read? (" \t" ++ write lastRequest ++ "\r\n") = some lastRequest := by
  have before : ∀ c ∈ " \t".toList, isSpace c = true := List.all_eq_true.1 (by decide)
  have after : ∀ c ∈ "\r\n".toList, isSpace c = true := List.all_eq_true.1 (by decide)
  obtain ⟨-, -, -, -, -, -, -, -, -, -, -, requests, -⟩ := read?_write
  exact ⟨before, after, requests lastRequest " \t" "\r\n" before after⟩

end Signalbox.Json
