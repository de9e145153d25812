import Mathlib

/-!
# Comma-separated values

`IsFile` is the grammar of RFC 4180: records of fields with commas between them, each record ended by a line
break (LF or CRLF), the last one perhaps not. A field is quoted, its quotes doubled, or has no comma, quote or
line break at all. `read` reads a text character by character; on what the grammar derives it returns what was
derived (`read_of_isFile`), so a text has one reading at most (`isFile_unique`).
-/

namespace Csv

/-! ### The grammar -/

/-- A text that can stand without quotes. -/
def Plain (text : List Char) : Prop := ∀ c ∈ text, c ≠ ',' ∧ c ≠ '"' ∧ c ≠ '\n' ∧ c ≠ '\r'

instance (text : List Char) : Decidable (Plain text) := List.decidableBAll _ text

/-- A text with its quotes doubled. -/
def doubled (text : List Char) : List Char := text.flatMap fun c => if c = '"' then ['"', '"'] else [c]

inductive IsField : List Char → String → Prop
  | plain {text : List Char} (h : Plain text) : IsField text (String.ofList text)
  | quoted (text : List Char) : IsField ('"' :: (doubled text ++ ['"'])) (String.ofList text)

inductive IsRecord : List Char → List String → Prop
  | last {text : List Char} {field : String} (h : IsField text field) : IsRecord text [field]
  | more {text rest : List Char} {field : String} {fields : List String} (h : IsField text field)
      (hrest : IsRecord rest fields) : IsRecord (text ++ ',' :: rest) (field :: fields)

inductive IsBreak : List Char → Prop
  | lf : IsBreak ['\n']
  | crlf : IsBreak ['\r', '\n']

inductive IsFile : List Char → List (List String) → Prop
  | nil : IsFile [] []
  | last {text : List Char} {fields : List String} (h : IsRecord text fields) (hne : text ≠ []) :
      IsFile text [fields]
  | cons {text lineBreak rest : List Char} {fields : List String} {records : List (List String)}
      (h : IsRecord text fields) (hbreak : IsBreak lineBreak) (hrest : IsFile rest records) :
      IsFile (text ++ (lineBreak ++ rest)) (fields :: records)

theorem IsRecord.ne_nil {text : List Char} {fields : List String} (h : IsRecord text fields) :
    fields ≠ [] := by
  cases h with
  | last => exact List.cons_ne_nil _ _
  | more => exact List.cons_ne_nil _ _

/-! ### The reader -/

/-- Where the reader stands in a field: before its first character, in it without quotes, in its quotes, after
a quote in its quotes, or after a carriage return behind it. -/
inductive Mode where
  | start
  | plain
  | quoted
  | closing
  | carriage

/-- What has been read: the records, the fields of the open record and the text of the open field. -/
structure Reader where
  records : List (List String) := []
  fields : List String := []
  field : List Char := []
  mode : Mode := .start

namespace Reader

def endField (r : Reader) : Reader :=
  { r with fields := r.fields ++ [String.ofList r.field], field := [], mode := .start }

def endRecord (r : Reader) : Reader :=
  { records := r.records ++ [r.fields ++ [String.ofList r.field]] }

/-- A character that ends a field. -/
def separate (r : Reader) (c : Char) : Option Reader :=
  if c = ',' then some r.endField
  else if c = '\n' then some r.endRecord
  else if c = '\r' then some { r with mode := .carriage }
  else none

def push (r : Reader) (mode : Mode) (c : Char) : Reader := { r with field := r.field ++ [c], mode }

def step (r : Reader) (c : Char) : Option Reader :=
  match r.mode with
  | .start => if c = '"' then some { r with mode := .quoted } else (r.separate c).or (some (r.push .plain c))
  | .plain => if c = '"' then none else (r.separate c).or (some (r.push .plain c))
  | .quoted => if c = '"' then some { r with mode := .closing } else some (r.push .quoted c)
  | .closing => if c = '"' then some (r.push .quoted c) else r.separate c
  | .carriage => if c = '\n' then some r.endRecord else none

/-- What has been read when the text ends. -/
def finish (r : Reader) : Option (List (List String)) :=
  match r.mode with
  | .start => if r.fields = [] then some r.records else some r.endRecord.records
  | .plain => some r.endRecord.records
  | .closing => some r.endRecord.records
  | .quoted => none
  | .carriage => none

/-- The rest of a text, from a state. -/
def readFrom (r : Reader) (text : List Char) : Option (List (List String)) :=
  (text.foldlM step r).bind finish

end Reader

def read (text : String) : Option (List (List String)) := Reader.readFrom {} text.toList

/-! ### Reading what the grammar derives -/

namespace Reader

/-- A field can end here. -/
def Ended (r : Reader) : Prop := r.mode = .plain ∨ r.mode = .closing ∨ r.mode = .start ∧ r.field = []

theorem separate_plain (r : Reader) {c : Char} (h : c ≠ ',' ∧ c ≠ '"' ∧ c ≠ '\n' ∧ c ≠ '\r') :
    r.separate c = none := by
  obtain ⟨hcomma, -, hlf, hcr⟩ := h
  rw [separate, if_neg hcomma, if_neg hlf, if_neg hcr]

/-- A character without a meaning goes into the field. -/
theorem step_plain {r : Reader} (hmode : r.mode = .start ∨ r.mode = .plain) {c : Char}
    (h : c ≠ ',' ∧ c ≠ '"' ∧ c ≠ '\n' ∧ c ≠ '\r') : r.step c = some (r.push .plain c) := by
  rcases hmode with hmode | hmode
  · simp only [step, hmode, if_neg h.2.1, separate_plain r h, Option.none_or]
  · simp only [step, hmode, if_neg h.2.1, separate_plain r h, Option.none_or]

theorem foldlM_plain {r : Reader} {text : List Char} (hmode : r.mode = .plain) (h : Plain text) :
    text.foldlM step r = some { r with field := r.field ++ text } := by
  induction text generalizing r with
  | nil => rw [List.foldlM_nil, List.append_nil]; rfl
  | cons c text ih =>
    obtain ⟨hc, htext⟩ := List.forall_mem_cons.1 h
    rw [List.foldlM_cons, step_plain (.inr hmode) hc, Option.bind_eq_bind, Option.bind_some,
      @ih (r.push .plain c) rfl htext]
    simp only [push, hmode, List.append_assoc, List.singleton_append]

theorem foldlM_doubled {r : Reader} (hmode : r.mode = .quoted) (text : List Char) :
    (doubled text).foldlM step r = some { r with field := r.field ++ text } := by
  induction text generalizing r with
  | nil => rw [List.append_nil]; rfl
  | cons c text ih =>
    have hdoubled : doubled (c :: text) = (if c = '"' then ['"', '"'] else [c]) ++ doubled text := rfl
    have hturn : (if c = '"' then ['"', '"'] else [c]).foldlM step r = some (r.push .quoted c) := by
      by_cases hquote : c = '"'
      · subst hquote
        simp only [if_true, List.foldlM_cons, List.foldlM_nil, step, hmode, Option.bind_eq_bind,
          Option.bind_some, push]
        rfl
      · simp only [if_neg hquote, List.foldlM_cons, List.foldlM_nil, step, hmode, Option.bind_eq_bind,
          Option.bind_some]
        rfl
    rw [hdoubled, List.foldlM_append, hturn, Option.bind_eq_bind, Option.bind_some,
      @ih (r.push .quoted c) rfl]
    simp only [push, hmode, List.append_assoc, List.singleton_append]

/-- The text of a field leads to where the field can end. -/
theorem foldlM_field {r : Reader} (hmode : r.mode = .start) (hfield : r.field = []) {text : List Char}
    {field : String} (h : IsField text field) :
    ∃ r', text.foldlM step r = some r' ∧ r'.Ended ∧ r'.records = r.records ∧ r'.fields = r.fields ∧
      String.ofList r'.field = field ∧ (r'.mode = .start → text = []) := by
  cases h with
  | plain h =>
    cases text with
    | nil =>
      exact ⟨r, rfl, .inr (.inr ⟨hmode, hfield⟩), rfl, rfl, by rw [hfield], fun _ => rfl⟩
    | cons c text =>
      obtain ⟨hc, htext⟩ := List.forall_mem_cons.1 h
      refine ⟨{ r with field := c :: text, mode := .plain }, ?_, .inl rfl, rfl, rfl, rfl, fun h => nomatch h⟩
      rw [List.foldlM_cons, step_plain (.inl hmode) hc, Option.bind_eq_bind, Option.bind_some,
        foldlM_plain rfl htext]
      simp only [push, hfield, List.nil_append, List.singleton_append]
  | quoted text =>
    refine ⟨{ r with field := text, mode := .closing }, ?_, .inr (.inl rfl), rfl, rfl, rfl,
      fun h => nomatch h⟩
    have hopen : r.step '"' = some { r with mode := .quoted } := by
      simp only [step, hmode, if_true]
    rw [List.foldlM_cons, hopen, Option.bind_eq_bind, Option.bind_some, List.foldlM_append,
      foldlM_doubled rfl, Option.bind_eq_bind, Option.bind_some, List.foldlM_cons, hfield]
    rfl

/-- Where a field can end, a separator ends it. -/
theorem Ended.step {r : Reader} (h : r.Ended) {c : Char} (hc : c = ',' ∨ c = '\n' ∨ c = '\r') :
    r.step c = r.separate c := by
  have hquote : c ≠ '"' := by rcases hc with rfl | rfl | rfl <;> decide
  have hsome : (r.separate c).isSome = true := by rcases hc with rfl | rfl | rfl <;> rfl
  obtain ⟨r', hr'⟩ := Option.isSome_iff_exists.1 hsome
  rcases h with hmode | hmode | ⟨hmode, -⟩
  · simp only [Reader.step, hmode, if_neg hquote, hr', Option.some_or]
  · simp only [Reader.step, hmode, if_neg hquote]
  · simp only [Reader.step, hmode, if_neg hquote, hr', Option.some_or]

theorem readFrom_append {r r' : Reader} {text : List Char} (h : text.foldlM step r = some r')
    (rest : List Char) : readFrom r (text ++ rest) = readFrom r' rest := by
  rw [readFrom, List.foldlM_append, h]
  rfl

/-- The text of a record leads to where its last field can end. -/
theorem foldlM_record {text : List Char} {fields : List String} (h : IsRecord text fields) {r : Reader}
    (hmode : r.mode = .start) (hfield : r.field = []) :
    ∃ r', text.foldlM step r = some r' ∧ r'.Ended ∧ r'.records = r.records ∧
      r'.fields ++ [String.ofList r'.field] = r.fields ++ fields ∧
      (r'.mode = .start → r'.fields = [] → text = []) := by
  induction h generalizing r with
  | last h =>
    obtain ⟨r', hfold, hended, hrecords, hfields, rfl, hempty⟩ := foldlM_field hmode hfield h
    exact ⟨r', hfold, hended, hrecords, by rw [hfields], fun hstart _ => hempty hstart⟩
  | @more text rest field fields h hrecord ih =>
    obtain ⟨r₁, hfold, hended, hrecords, hfields, rfl, -⟩ := foldlM_field hmode hfield h
    obtain ⟨r', hrest, hended', hrecords', hfields', -⟩ := @ih r₁.endField rfl rfl
    refine ⟨r', ?_, hended', hrecords'.trans hrecords, ?_, ?_⟩
    · rw [List.foldlM_append, hfold, Option.bind_eq_bind, Option.bind_some, List.foldlM_cons,
        hended.step (.inl rfl), separate, if_pos rfl, Option.bind_eq_bind, Option.bind_some, hrest]
    · rw [hfields', endField, hfields, List.append_assoc]
      rfl
    · -- a field stands before the last one
      intro _ hnone
      have hlength := congrArg List.length hfields'
      have hpos := List.length_pos_iff.2 hrecord.ne_nil
      simp only [hnone, endField, List.length_append, List.length_cons, List.length_nil] at hlength
      omega

/-- A line break ends the record. -/
theorem Ended.lineBreak {r : Reader} (h : r.Ended) {lineBreak : List Char} (hbreak : IsBreak lineBreak) :
    lineBreak.foldlM Reader.step r = some r.endRecord := by
  cases hbreak with
  | lf =>
    rw [List.foldlM_cons, h.step (.inr (.inl rfl))]
    rfl
  | crlf =>
    rw [List.foldlM_cons, h.step (.inr (.inr rfl))]
    rfl

theorem readFrom_file {text : List Char} {records : List (List String)} (h : IsFile text records)
    (done : List (List String)) : readFrom { records := done } text = some (done ++ records) := by
  induction h generalizing done with
  | nil => exact congrArg some (List.append_nil done).symm
  | @last text fields h hne =>
    obtain ⟨r, hfold, hended, hrecords, hfields, hempty⟩ := @foldlM_record _ _ h { records := done } rfl rfl
    have hend : r.endRecord.records = done ++ [fields] := by
      rw [endRecord, hrecords, hfields]
      rfl
    rw [readFrom, hfold, Option.bind_some, ← hend]
    rcases hended with hmode | hmode | ⟨hmode, -⟩
    · simp only [finish, hmode]
    · simp only [finish, hmode]
    · simp only [finish, hmode]
      rw [if_neg fun hnone => hne (hempty hmode hnone)]
  | @cons text lineBreak rest fields records h hbreak _ ih =>
    obtain ⟨r, hfold, hended, hrecords, hfields, -⟩ := @foldlM_record _ _ h { records := done } rfl rfl
    have hend : r.endRecord = { records := done ++ [fields] } := by
      rw [endRecord, hrecords, hfields]
      rfl
    rw [readFrom_append hfold, readFrom_append (hended.lineBreak hbreak), hend, ih, List.append_assoc]
    rfl

end Reader

/-- The reader returns what the grammar derives. -/
theorem read_of_isFile {text : String} {records : List (List String)} (h : IsFile text.toList records) :
    read text = some records := Reader.readFrom_file h []

/-- A text has one reading at most. -/
theorem isFile_unique {text : String} {records records' : List (List String)}
    (h : IsFile text.toList records) (h' : IsFile text.toList records') : records = records' :=
  Option.some.inj ((read_of_isFile h).symm.trans (read_of_isFile h'))

/-! ### Writing -/

theorem isField_toList {text : String} (h : Plain text.toList) : IsField text.toList text := by
  have hfield := IsField.plain h
  rwa [String.ofList_toList] at hfield

theorem isField_quoted (text : String) : IsField ('"' :: (doubled text.toList ++ ['"'])) text := by
  have hfield := IsField.quoted text.toList
  rwa [String.ofList_toList] at hfield

/-- Fields with commas between them are a record. -/
theorem isRecord_intercalate {texts : List (List Char)} {fields : List String}
    (h : List.Forall₂ IsField texts fields) (hne : texts ≠ []) :
    IsRecord ([','].intercalate texts) fields := by
  induction h with
  | nil => exact absurd rfl hne
  | @cons text field texts fields htext htexts ih =>
    cases htexts with
    | nil =>
      rw [List.intercalate_singleton]
      exact .last htext
    | cons =>
      rw [List.intercalate_cons_of_ne_nil (List.cons_ne_nil _ _), List.append_assoc]
      exact .more htext (ih (List.cons_ne_nil _ _))

/-- Records that are each followed by a line feed are a file. -/
theorem isFile_lines {lines : List (List Char)} {records : List (List String)}
    (h : List.Forall₂ IsRecord lines records) :
    IsFile (lines.flatMap fun line => line ++ ['\n']) records := by
  induction h with
  | nil => exact .nil
  | @cons line record lines records hline _ ih =>
    rw [List.flatMap_cons, List.append_assoc]
    exact .cons hline .lf ih

example : read "a,\"b,\"\"c\"\"\r\n\",\r\n\"\",d" = some [["a", "b,\"c\"\r\n", ""], ["", "d"]] := by
  decide +kernel

end Csv
