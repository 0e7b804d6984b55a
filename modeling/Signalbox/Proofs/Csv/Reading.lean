import Mathlib.Data.List.Basic
import Signalbox.Csv.Reader
import Signalbox.Csv.Tables
import Signalbox.Proofs.Text.Reading

/-!
# Tables are read back

The reader of tables works on bytes and the writer on characters.  Between them stands UTF-8, where
commas, quotes and line ends are never part of another character.  So the reader finds the fields of
a table as the writer wrote them, whatever texts they hold:

* `Scan.run_writeField`  : a written field is read whole, its quotes undone;
* `Scan.run_writeRecord` : a written record is read as one record;
* `fields_records`       : a written table is read record by record.

The texts of the fields are found again only if they are not blank at their ends
(`texts_textBytes`), since the reader trims them.
-/

set_option autoImplicit false

namespace Signalbox.Csv

open Digest (textBytes textBytes_eq toNat_of_mem_utf8EncodeChar)

/-! ## Characters as bytes -/

/-- The UTF-8 bytes of some characters. -/
def encode (cs : List Char) : List UInt8 := cs.flatMap String.utf8EncodeChar

@[simp] theorem encode_nil : encode [] = [] := rfl

@[simp] theorem encode_cons (c : Char) (cs : List Char) :
    encode (c :: cs) = String.utf8EncodeChar c ++ encode cs := rfl

@[simp] theorem encode_append (cs ds : List Char) : encode (cs ++ ds) = encode cs ++ encode ds :=
  List.flatMap_append

theorem textBytes_eq_encode (s : String) : textBytes s = encode s.toList := textBytes_eq s

theorem textBytes_ofList (cs : List Char) : textBytes (String.ofList cs) = encode cs := by
  rw [textBytes_eq_encode, String.toList_ofList]

@[simp] theorem utf8EncodeChar_comma : String.utf8EncodeChar ',' = [comma] := by decide
@[simp] theorem utf8EncodeChar_quote : String.utf8EncodeChar '"' = [quoteMark] := by decide
@[simp] theorem utf8EncodeChar_newline : String.utf8EncodeChar '\n' = [lineFeed] := by decide

/-- A byte below 128 among the bytes of a character is that character. -/
theorem eq_of_mem_utf8EncodeChar {a c : Char} {b : UInt8} (low : b.toNat < 128)
    (same : a.toNat = b.toNat) (mem : b ∈ String.utf8EncodeChar c) : c = a := by
  rcases toNat_of_mem_utf8EncodeChar b mem with eq | high
  · exact Char.toNat_inj.1 (eq.symm.trans same.symm)
  · omega

theorem mem_of_mem_encode {a : Char} {b : UInt8} {cs : List Char} (low : b.toNat < 128)
    (same : a.toNat = b.toNat) (mem : b ∈ encode cs) : a ∈ cs := by
  obtain ⟨c, hc, byte⟩ := List.mem_flatMap.1 mem
  exact eq_of_mem_utf8EncodeChar low same byte ▸ hc

/-- Bytes that a field holds without quotes. -/
def IsOrdinary (b : UInt8) : Prop := b ≠ comma ∧ b ≠ quoteMark ∧ isLineEnd b = false

theorem isOrdinary_of_mem_encode {cs : List Char} (h : needsQuotes cs = false) :
    ∀ b ∈ encode cs, IsOrdinary b := by
  intro b mem
  have absent (a : Char) (special : (a = ',' || a = '"' || a = '\r' || a = '\n') = true) :
      a ∉ cs := fun ha => by
    simp [needsQuotes, List.any_eq_false] at h special
    have := h a ha
    tauto
  refine ⟨?_, ?_, ?_⟩
  · rintro rfl
    exact absent ',' (by decide) (mem_of_mem_encode (by decide) (by decide) mem)
  · rintro rfl
    exact absent '"' (by decide) (mem_of_mem_encode (by decide) (by decide) mem)
  · simp only [isLineEnd, Bool.or_eq_false_iff, decide_eq_false_iff_not]
    constructor
    · rintro rfl
      exact absent '\n' (by decide) (mem_of_mem_encode (by decide) (by decide) mem)
    · rintro rfl
      exact absent '\r' (by decide) (mem_of_mem_encode (by decide) (by decide) mem)

/-! ## Fields -/

namespace Scan

variable {s : Scan} {p : Position}

theorem run_append (s : Scan) (p : Position) (xs ys : List UInt8) :
    s.run p (xs ++ ys) = (s.run p xs).run (xs.foldl advance p) ys := by
  induction xs generalizing s p with
  | nil => rfl
  | cons b xs ih => exact ih ..

theorem run_keep {m : Mode} {bs : List UInt8}
    (keeps : ∀ b ∈ bs, ∀ s : Scan, s.mode = m → ∀ q, s.step b q = s.keep b m)
    (mode : s.mode = m) : s.run p bs = { s with bytes := bs.reverse ++ s.bytes } := by
  induction bs generalizing s p with
  | nil => rfl
  | cons b bs ih =>
    rw [run, keeps b (by simp) s mode, ih (fun b' h => keeps b' (by simp [h])) rfl]
    simp [keep, mode]

theorem run_plain (plain : s.mode = .plain) {bs : List UInt8} (ordinary : ∀ b ∈ bs, IsOrdinary b) :
    s.run p bs = { s with bytes := bs.reverse ++ s.bytes } := by
  refine run_keep (fun b hb s plain q => ?_) plain
  obtain ⟨noComma, -, noEnd⟩ := ordinary b hb
  simp [step, plain, plainByte, noComma, noEnd]

theorem run_quoted (quoted : s.mode = .quoted) {bs : List UInt8} (noQuote : quoteMark ∉ bs) :
    s.run p bs = { s with bytes := bs.reverse ++ s.bytes } := by
  refine run_keep (fun b hb s quoted q => ?_) quoted
  have other : b ≠ quoteMark := fun same => noQuote (same ▸ hb)
  simp [step, quoted, other]

/-- Between quotes a doubled quote is kept once, and everything else as it is. -/
theorem run_doubleQuotes (quoted : s.mode = .quoted) (cs : List Char) :
    s.run p (encode (doubleQuotes cs)) = { s with bytes := (encode cs).reverse ++ s.bytes } := by
  induction cs generalizing s p with
  | nil => rfl
  | cons c cs ih =>
    have rest : doubleQuotes (c :: cs) = (if c = '"' then ['"', '"'] else [c]) ++ doubleQuotes cs :=
      rfl
    rw [rest, encode_append, run_append]
    by_cases hc : c = '"'
    · subst hc
      simp only [if_true, encode_cons, encode_nil, utf8EncodeChar_quote, List.append_nil, run,
        List.cons_append, List.nil_append]
      rw [ih (by simp [step, quoted, keep])]
      simp [step, quoted, keep]
    · have noQuote : quoteMark ∉ String.utf8EncodeChar c := fun mem =>
        hc (eq_of_mem_utf8EncodeChar (by decide) (by decide) mem)
      simp only [if_neg hc, encode_cons, encode_nil, List.append_nil]
      rw [run_quoted quoted noQuote, ih]
      · simp
      · exact quoted

/-- Before a field, no byte of which has been read. -/
structure AtField (s : Scan) : Prop where
  mode : s.mode = .record ∨ s.mode = .field
  bytes : s.bytes = []

theorem AtField.step (h : s.AtField) {b : UInt8} (noEnd : isLineEnd b = false) (q : Position) :
    s.step b q = s.firstByte b q := by
  rcases h.mode with hm | hm <;> simp [Scan.step, hm, noEnd]

/-- The reader has read a field that began where `s` stands: its bytes are kept and the next comma
or line end completes it. -/
def holding (s : Scan) (f : List UInt8) (mode : Mode) : Scan := { s with bytes := f.reverse, mode }

theorem endRecord_holding (s : Scan) (f : List UInt8) (m mode : Mode) (q : Position) :
    (s.holding f m).endRecord q mode =
      { mode, start := q, records := ⟨s.start, (f :: s.fields).reverse⟩ :: s.records } := by
  simp [endRecord, endField, holding]

theorem run_enclosed (h : s.AtField) (cs : List Char) :
    s.run p (encode ('"' :: (doubleQuotes cs ++ ['"']))) = s.holding (encode cs) .quote := by
  rw [encode_cons, utf8EncodeChar_quote, encode_append, encode_cons, encode_nil, List.append_nil,
    utf8EncodeChar_quote, List.singleton_append, run, h.step (by decide), firstByte, if_pos rfl,
    run_append, run_doubleQuotes rfl]
  simp [run, Scan.step, holding, h.bytes]

theorem run_bare (h : s.AtField) {b : UInt8} {bs : List UInt8}
    (ordinary : ∀ b' ∈ b :: bs, IsOrdinary b') :
    s.run p (b :: bs) = s.holding (b :: bs) .plain := by
  obtain ⟨noComma, noQuote, noEnd⟩ := ordinary b (by simp)
  rw [run, h.step noEnd, firstByte, if_neg noQuote, plainByte, if_neg noComma,
    if_neg (by simp [noEnd]), run_plain rfl fun b' hb => ordinary b' (by simp [hb])]
  simp [keep, holding, h.bytes]

/-- **A written field is read whole.**  Behind an empty one the reader stands as before it. -/
theorem run_writeField (h : s.AtField) (cs : List Char) :
    ∃ m, s.run p (encode (writeField cs)) = s.holding (encode cs) m ∧
      (m = .plain ∨ m = .quote ∨ (m = s.mode ∧ cs = [])) := by
  rw [writeField]
  split
  case isTrue => exact ⟨.quote, run_enclosed h cs, .inr (.inl rfl)⟩
  case isFalse plain =>
    have ordinary := isOrdinary_of_mem_encode (Bool.eq_false_iff.2 plain)
    cases cs with
    | nil =>
      have stays : s.holding [] s.mode = s := by
        rw [holding, List.reverse_nil, ← h.bytes]
      exact ⟨s.mode, stays.symm, .inr (.inr ⟨rfl, rfl⟩)⟩
    | cons c cs =>
      obtain ⟨b, bs, bytes⟩ := List.exists_cons_of_ne_nil (l := encode (c :: cs)) (by simp)
      rw [bytes] at ordinary ⊢
      exact ⟨.plain, run_bare h ordinary, .inl rfl⟩

theorem run_writeField_comma (h : s.AtField) (cs : List Char) :
    s.run p (encode (writeField cs ++ [','])) =
      { s with fields := encode cs :: s.fields, mode := .field } := by
  obtain ⟨m, read, mode⟩ := run_writeField (p := p) h cs
  rw [encode_append, run_append, read]
  have step (q : Position) :
      (s.holding (encode cs) m).step comma q = (s.holding (encode cs) m).endField := by
    rcases mode with rfl | rfl | ⟨rfl, -⟩
    · rfl
    · rfl
    · rcases h.mode with hm | hm <;> (simp only [Scan.step, holding, hm]; rfl)
  simp only [encode_cons, encode_nil, utf8EncodeChar_comma, List.append_nil, run, step]
  simp [endField, holding, h.bytes]

/-- Behind a written field a line feed completes the record, unless the record would be no more than
an empty line. -/
theorem run_writeField_newline (h : s.AtField) {cs : List Char}
    (notEmpty : s.mode = .record → cs ≠ []) :
    ∃ q, s.run p (encode (writeField cs ++ ['\n'])) =
      { mode := .record, start := q,
        records := ⟨s.start, (encode cs :: s.fields).reverse⟩ :: s.records } := by
  obtain ⟨m, read, mode⟩ := run_writeField (p := p) h cs
  rw [encode_append, run_append, read]
  have step (q : Position) : (s.holding (encode cs) m).step lineFeed q =
      (s.holding (encode cs) m).endRecord q .record := by
    rcases mode with rfl | rfl | ⟨rfl, empty⟩
    · rfl
    · rfl
    · have hm : s.mode = .field := h.mode.resolve_left fun hm => notEmpty hm empty
      simp only [Scan.step, holding, hm]
      rfl
  simp only [encode_cons, encode_nil, utf8EncodeChar_newline, List.append_nil, run, step,
    endRecord_holding]
  exact ⟨_, rfl⟩

/-! ## Records -/

theorem run_fields (h : s.AtField) {fs : List String} (ne : fs ≠ [])
    (notEmpty : s.mode = .record → fs ≠ [""]) :
    ∃ q, s.run p (encode (List.intercalate [','] (fs.map fun f => writeField f.toList) ++ ['\n'])) =
      { mode := .record, start := q,
        records := ⟨s.start, s.fields.reverse ++ fs.map textBytes⟩ :: s.records } := by
  induction fs generalizing s p with
  | nil => exact absurd rfl ne
  | cons f fs ih =>
    cases fs with
    | nil =>
      have last : s.mode = .record → f.toList ≠ [] := by simpa using notEmpty
      obtain ⟨q, read⟩ := run_writeField_newline (p := p) h last
      exact ⟨q, by simpa [textBytes_eq_encode] using read⟩
    | cons g fs =>
      simp only [List.map_cons, List.intercalate_cons_cons, List.append_assoc]
      rw [← List.append_assoc, encode_append, run_append, run_writeField_comma h]
      obtain ⟨q, read⟩ := ih (s := { s with fields := encode f.toList :: s.fields, mode := .field })
        (p := _) ⟨.inr rfl, h.bytes⟩ (by simp) (by simp)
      exact ⟨q, by simpa [textBytes_eq_encode] using read⟩

/-- **A written record is read as one record.** -/
theorem run_writeRecord (record : s.mode = .record) (bytes : s.bytes = []) (fields : s.fields = [])
    {fs : List String} (ne : fs ≠ []) :
    ∃ q, s.run p (encode (writeRecord fs)) =
      { mode := .record, start := q, records := ⟨s.start, fs.map textBytes⟩ :: s.records } := by
  by_cases one : fs = [""]
  · -- the two quotes of a record that has but one empty field
    subst one
    have quotes : encode (writeRecord [""]) = [quoteMark, quoteMark, lineFeed] := by decide
    obtain ⟨mode, kept, done, start, records⟩ := s
    subst record bytes fields
    rw [quotes]
    exact ⟨_, rfl⟩
  · rw [writeRecord.eq_2 fs fun h => one h]
    obtain ⟨q, read⟩ := run_fields (p := p) ⟨.inl record, bytes⟩ ne fun _ => one
    exact ⟨q, by simpa [fields] using read⟩

theorem run_writeTable (record : s.mode = .record) (bytes : s.bytes = []) (fields : s.fields = [])
    {t : List (List String)} (ne : ∀ fs ∈ t, fs ≠ []) :
    (s.run p (encode (t.flatMap writeRecord))).finish.map RawRecord.fields =
      s.records.reverse.map RawRecord.fields ++ t.map fun fs => fs.map textBytes := by
  induction t generalizing s p with
  | nil => simp [run, finish, record]
  | cons fs t ih =>
    rw [List.flatMap_cons, encode_append, run_append]
    obtain ⟨q, read⟩ := run_writeRecord (p := p) record bytes fields (ne fs (by simp))
    rw [read, ih rfl rfl rfl fun fs' h => ne fs' (by simp [h])]
    simp

end Scan

/-- **A written table is read record by record**, if every record has a field and the table does not
begin with a byte order mark. -/
theorem fields_records {t : List (List String)} (ne : ∀ fs ∈ t, fs ≠ [])
    (noMark : ∀ bs, textBytes (writeTable t) ≠ 0xef :: 0xbb :: 0xbf :: bs) :
    (records (textBytes (writeTable t))).map RawRecord.fields = t.map fun fs => fs.map textBytes := by
  rw [records.eq_2 _ noMark, writeTable, textBytes_ofList, Scan.run_writeTable rfl rfl rfl ne]
  rfl

/-! ## Texts -/

@[simp] theorem decode?_textBytes (s : String) : decode? (textBytes s) = some s := by
  have bytes : (⟨(textBytes s).toArray⟩ : ByteArray) = s.toByteArray := by
    simp [Digest.textBytes]
  rw [decode?, bytes, String.fromUTF8?, dif_pos s.isValidUTF8]
  rfl

/-- A blank byte is part of no character but a blank one. -/
theorem isBlank_of_mem_utf8EncodeChar {b : UInt8} {c : Char} (blank : isBlankByte b = true)
    (mem : b ∈ String.utf8EncodeChar c) : Text.isBlank c = true := by
  have isByte (a : Char) (low : b.toNat < 128) (same : a.toNat = b.toNat)
      (blank : Text.isBlank a = true) : Text.isBlank c = true :=
    eq_of_mem_utf8EncodeChar low same mem ▸ blank
  simp only [isBlankByte, Bool.or_eq_true, decide_eq_true_eq] at blank
  rcases blank with (((rfl | rfl) | rfl) | rfl) | rfl
  · exact isByte ' ' (by decide) (by decide) (by decide)
  · exact isByte '\t' (by decide) (by decide) (by decide)
  · exact isByte '\n' (by decide) (by decide) (by decide)
  · exact isByte '\x0c' (by decide) (by decide) (by decide)
  · exact isByte '\r' (by decide) (by decide) (by decide)

theorem head?_encode {cs : List Char} (h : ∀ c ∈ cs.head?, Text.isBlank c = false) :
    ∀ b ∈ (encode cs).head?, isBlankByte b = false := by
  cases cs with
  | nil => simp
  | cons c cs =>
    intro b mem
    rw [encode_cons, List.head?_append_of_ne_nil _ (by simp)] at mem
    by_contra blank
    have := isBlank_of_mem_utf8EncodeChar (Bool.not_eq_false _ ▸ blank) (List.mem_of_mem_head? mem)
    simp [h c (by simp)] at this

theorem getLast?_encode {cs : List Char} (h : ∀ c ∈ cs.getLast?, Text.isBlank c = false) :
    ∀ b ∈ (encode cs).getLast?, isBlankByte b = false := by
  rcases List.eq_nil_or_concat cs with rfl | ⟨cs, c, rfl⟩
  · simp
  · intro b mem
    rw [List.concat_eq_append, encode_append, encode_cons, encode_nil, List.append_nil,
      List.getLast?_append_of_ne_nil _ (by simp)] at mem
    by_contra blank
    have := isBlank_of_mem_utf8EncodeChar (Bool.not_eq_false _ ▸ blank) (List.mem_of_getLast? mem)
    simp [h c (by simp)] at this

/-- The bytes of a text that is not blank at its ends are not blank at theirs. -/
theorem trimBytes_textBytes {s : String} (h : Text.Trimmed s.toList) :
    trimBytes (textBytes s) = textBytes s := by
  rw [trimBytes, textBytes_eq_encode, Text.dropWhile_eq_self (head?_encode h.1),
    Text.dropWhile_eq_self, List.reverse_reverse]
  simpa using getLast?_encode h.2

/-- **Texts that are not blank at their ends are found again** in their fields. -/
theorem texts_textBytes {ss : List String} (h : ∀ s ∈ ss, Text.Trimmed s.toList) (number : Nat) :
    texts number (ss.map textBytes) = .ok ss := by
  induction ss generalizing number with
  | nil => rfl
  | cons s ss ih =>
    rw [List.map_cons, texts, trimBytes_textBytes (h s (by simp)), decode?_textBytes]
    simp only [ih fun s hs => h s (by simp [hs]), Text.trim_eq_self (h s (by simp))]
    rfl

end Signalbox.Csv
