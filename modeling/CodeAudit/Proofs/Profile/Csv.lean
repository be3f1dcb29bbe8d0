import CodeAudit.Profile.Csv
import CodeAudit.Proofs.Finding.Order
import CodeAudit.Proofs.Text.Digits
import CodeAudit.Proofs.Text.Pieces

namespace CodeAudit

open Ordered

namespace Csv

/-! ### A reader -/

/-- Where in a field a reader is. -/
inductive Place where
  | start
  | bare
  | quoted
  | closed
deriving DecidableEq

/-- The records that are complete, the fields that are complete of the next one, and the characters
of the next field. -/
structure Reader where
  records : List (List String) := []
  fields : List String := []
  chars : List Char := []
  place : Place := .start
deriving DecidableEq

namespace Reader

def endField (r : Reader) : Reader :=
  { records := r.records, fields := r.fields ++ [String.ofList r.chars] }

def endRecord (r : Reader) : Reader := { records := r.records ++ [r.endField.fields] }

def push (r : Reader) (place : Place) (c : Char) : Reader :=
  { r with chars := r.chars ++ [c], place }

/-- A comma ends a field, a line feed a record; outside quotation marks neither is part of a field,
nor is a quotation mark or a carriage return. -/
def step (r : Reader) (c : Char) : Option Reader :=
  match r.place, c with
  | .start, '"' => some { r with place := .quoted }
  | .quoted, '"' => some { r with place := .closed }
  | .quoted, c => some (r.push .quoted c)
  | .closed, '"' => some (r.push .quoted '"')
  | _, ',' => some r.endField
  | _, '\n' => some r.endRecord
  | .closed, _ => none
  | _, c => if c = '"' ∨ c = '\r' then none else some (r.push .bare c)

end Reader

/-- The records of a text, each of them ended by a line feed. -/
def read? (s : String) : Option (List (List String)) := do
  let r ← s.toList.foldlM Reader.step {}
  if r = { records := r.records } then some r.records else none

/-! ### What fields, records and texts bring the reader to -/

namespace Reader

variable {r : Reader} {c : Char}

theorem step_quote (h : r.place = .start) : r.step '"' = some { r with place := .quoted } := by
  simp [step, h]

theorem step_comma (h : r.place ≠ .quoted) : r.step ',' = some r.endField := by
  cases hplace : r.place <;> simp_all [step]

theorem step_lineFeed (h : r.place ≠ .quoted) : r.step '\n' = some r.endRecord := by
  cases hplace : r.place <;> simp_all [step]

theorem step_bare (h : r.place = .start ∨ r.place = .bare) (hc : needsQuotes c = false) :
    r.step c = some (r.push .bare c) := by
  unfold step
  simp only [needsQuotes, Bool.or_eq_false_iff, beq_eq_false_iff_ne] at hc
  split <;> simp_all

end Reader

theorem foldlM_bare {cs : List Char} (h : ∀ c ∈ cs, needsQuotes c = false) {r : Reader}
    (hr : r.place = .start ∨ r.place = .bare) :
    ∃ place ≠ Place.quoted,
      cs.foldlM Reader.step r = some { r with chars := r.chars ++ cs, place } := by
  induction cs generalizing r with
  | nil =>
    refine ⟨r.place, ?_, by simp⟩
    rcases hr with hr | hr <;> simp [hr]
  | cons c cs ih =>
    obtain ⟨hc, hcs⟩ := List.forall_mem_cons.mp h
    obtain ⟨place, hplace, hread⟩ := ih hcs (r := r.push .bare c) (.inr rfl)
    refine ⟨place, hplace, ?_⟩
    rw [List.foldlM_cons, Reader.step_bare hr hc, Option.bind_eq_bind, Option.bind_some, hread]
    simp [Reader.push]

/-- Within quotation marks every character stands for itself, a doubled quotation mark for one. -/
theorem foldlM_quoted (cs : List Char) {r : Reader} (hr : r.place = .quoted) :
    (cs.flatMap fun c => if c = '"' then ['"', '"'] else [c]).foldlM Reader.step r =
      some { r with chars := r.chars ++ cs } := by
  induction cs generalizing r with
  | nil => simp
  | cons c cs ih =>
    have hone : (if c = '"' then ['"', '"'] else [c]).foldlM Reader.step r =
        some (r.push .quoted c) := by
      split
      next hc => simp [Reader.step, Reader.push, hr, hc]
      next => simp [Reader.step, hr]
    rw [List.flatMap_cons, List.foldlM_append, hone, Option.bind_eq_bind, Option.bind_some,
      ih (r := r.push .quoted c) rfl]
    simp [Reader.push, hr]

theorem foldlM_field (s : String) (records : List (List String)) (fields : List String) :
    ∃ place ≠ Place.quoted,
      (field s).toList.foldlM Reader.step { records, fields } =
        some { records, fields, chars := s.toList, place } := by
  unfold field
  split
  · refine ⟨.closed, by decide, ?_⟩
    have hinside := foldlM_quoted s.toList (r := { records, fields, place := .quoted }) rfl
    have htext : ("\"" ++ Text.replaceAll "\"" "\"\"" s ++ "\"").toList =
        '"' :: (s.toList.flatMap fun c => if c = '"' then ['"', '"'] else [c]) ++ ['"'] := by
      simp [Text.replaceAll, Text.replaceList_singleton]
    rw [htext, List.foldlM_append, List.foldlM_cons, Reader.step_quote rfl, Option.bind_eq_bind,
      Option.bind_some, hinside]
    simp [Reader.step]
  next hplain =>
    have hchars : ∀ c ∈ s.toList, needsQuotes c = false := by simpa using hplain
    exact foldlM_bare hchars (.inl rfl)

theorem foldlM_row {cells : List String} (hcells : cells ≠ []) (records : List (List String))
    (fields : List String) :
    (row (cells.map field)).toList.foldlM Reader.step { records, fields } =
      some { records := records ++ [fields ++ cells] } := by
  induction cells generalizing fields with
  | nil => exact absurd rfl hcells
  | cons cell cells ih =>
    -- After each field the reader stands outside of quotation marks, or behind the closing one.
    obtain ⟨place, hplace, hfield⟩ := foldlM_field cell records fields
    cases cells with
    | nil =>
      have htext : (row ([cell].map field)).toList = (field cell).toList ++ ['\n'] := by
        simp [row]
      rw [htext, List.foldlM_append, hfield, Option.bind_eq_bind, Option.bind_some,
        List.foldlM_cons, Reader.step_lineFeed hplace]
      simp [Reader.endRecord, Reader.endField]
    | cons next rest =>
      have htext : (row ((cell :: next :: rest).map field)).toList =
          (field cell).toList ++ ',' :: (row ((next :: rest).map field)).toList := by
        simp [row, String.intercalate_cons_cons]
      rw [htext, List.foldlM_append, hfield, Option.bind_eq_bind, Option.bind_some,
        List.foldlM_cons, Reader.step_comma hplace, Option.bind_eq_bind, Option.bind_some]
      have hrest := ih (by simp) (fields ++ [cell])
      simpa [Reader.endField] using hrest

theorem foldlM_rows {table : List (List String)} (h : ∀ cells ∈ table, cells ≠ [])
    (records : List (List String)) :
    (String.join (table.map fun cells => row (cells.map field))).toList.foldlM Reader.step
        { records } = some { records := records ++ table } := by
  induction table generalizing records with
  | nil => simp
  | cons cells table ih =>
    obtain ⟨hcells, htable⟩ := List.forall_mem_cons.mp h
    rw [List.map_cons, String.join_cons, String.toList_append, List.foldlM_append,
      foldlM_row hcells, Option.bind_eq_bind, Option.bind_some, ih htable]
    simp

theorem read?_rows {table : List (List String)} (h : ∀ cells ∈ table, cells ≠ []) :
    read? (String.join (table.map fun cells => row (cells.map field))) = some table := by
  rw [read?, foldlM_rows h]
  simp

example : read? "a,\"b,\n\"\"c\"\n" = some [["a", "b,\n\"c"]] := by decide

/-! ### Fields that are numbers -/

theorem field_of_plain {s : String} (h : ∀ c ∈ s.toList, needsQuotes c = false) : field s = s := by
  unfold field
  rw [if_neg]
  simpa using h

theorem needsQuotes_of_digit {c : Char} (h : c.isDigit = true ∨ c = '.') :
    needsQuotes c = false := by
  rw [Bool.eq_false_iff]
  intro hc
  simp only [needsQuotes, Bool.or_eq_true, beq_iff_eq] at hc
  rcases hc with ((rfl | rfl) | rfl) | rfl <;> simp at h

end Csv

theorem digit_of_mem_toFixed {places : Nat} {x : Number.Magnitude} {c : Char}
    (h : c ∈ (x.toFixed places).toList) : c.isDigit = true ∨ c = '.' := by
  simp only [Number.Magnitude.toFixed, String.toList_append, String.toList_ofList,
    List.mem_append] at h
  rcases h with ((h | h) | h) | h
  · exact .inl (isDigit_of_mem_toString h)
  · exact .inr (by simpa using h)
  · rw [List.eq_of_mem_replicate h]
    exact .inl rfl
  · exact .inl (isDigit_of_mem_toString h)

theorem digit_of_mem_millisecondsText {nanoseconds : Nat} {c : Char}
    (h : c ∈ (millisecondsText nanoseconds).toList) : c.isDigit = true ∨ c = '.' :=
  digit_of_mem_toFixed h

namespace Profile

instance : Std.TransCmp rowOrder :=
  transCmp_then
    (transCmp_then (transCmp_on ExecutionRecord.ruleSet compare)
      (transCmp_on ExecutionRecord.rule compare))
    (transCmp_on ExecutionRecord.file Path.order)

def cells (r : ExecutionRecord) : List String :=
  [r.ruleSet, r.rule, r.file.text, millisecondsText r.duration, toString r.findings]

def header : List String := ["RuleSet", "Rule", "File", "Duration(ms)", "Findings"]

theorem csvRow_eq (r : ExecutionRecord) : csvRow r = Csv.row ((cells r).map Csv.field) := by
  have hduration : Csv.field (millisecondsText r.duration) = millisecondsText r.duration :=
    Csv.field_of_plain fun c hc => Csv.needsQuotes_of_digit (digit_of_mem_millisecondsText hc)
  have hfindings : Csv.field (toString r.findings) = toString r.findings :=
    Csv.field_of_plain fun c hc => Csv.needsQuotes_of_digit (.inl (isDigit_of_mem_toString hc))
  simp only [csvRow, cells, List.map_cons, List.map_nil, hduration, hfindings]

theorem csv_eq (p : Profile) :
    p.csv = String.join ((header :: (sortBy rowOrder p.records).map cells).map fun cells =>
      Csv.row (cells.map Csv.field)) := by
  have hheader : Csv.row (header.map Csv.field) = csvHeader ++ "\n" := by rfl
  rw [List.map_cons, String.join_cons, hheader, List.map_map]
  simp only [Function.comp_def, ← csvRow_eq]
  rfl

/-- Read as comma-separated values, the text of a profile is a header and then one record for each
execution with what is shown of it, whatever characters that has. The executions are sorted by rule
set, rule and file, and those that agree in all three are in the order they were recorded in. -/
theorem csv_reads_back (p : Profile) :
    ∃ rows : List ExecutionRecord,
      rows.Perm p.records ∧ Ascending rowOrder rows ∧
      (∀ r, level rowOrder r rows = level rowOrder r p.records) ∧
      Csv.read? p.csv = some (["RuleSet", "Rule", "File", "Duration(ms)", "Findings"] ::
        rows.map fun r =>
          [r.ruleSet, r.rule, r.file.text, millisecondsText r.duration, toString r.findings]) := by
  refine ⟨sortBy rowOrder p.records, sortBy_perm _ _, ascending_sortBy _ _,
    fun r => level_sortBy _ _ _, ?_⟩
  rw [csv_eq, Csv.read?_rows]
  · rfl
  · intro record hrecord
    rcases List.mem_cons.mp hrecord with rfl | hrecord
    · simp [header]
    · obtain ⟨r, -, rfl⟩ := List.mem_map.mp hrecord
      simp [cells]

end Profile

end CodeAudit
