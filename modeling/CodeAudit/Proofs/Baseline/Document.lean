import CodeAudit.Proofs.Baseline.Position
import CodeAudit.Proofs.Success
import CodeAudit.Proofs.Xml.Entity
import CodeAudit.Proofs.Xml.Token

namespace CodeAudit.Baseline

open Xml

/-- The ids that reading finds in a list: trimmed, and without those that are blank. -/
def legible (ids : List String) : List String :=
  (ids.map Text.trim).filter fun id => !id.isEmpty

/-- What is left of a baseline when it is read back. -/
def trimmed (b : Baseline) : Baseline where
  manual := .ofList (legible b.manual.toList)
  current := .ofList (legible b.current.toList)

/-! ### The tokens of a rendered document -/

def idTokens (id : String) : List Token :=
  [.start idName] ++ (textTokens (escape id).toList ++ [.close idName])

def Section.tokens (s : Section) (ids : TextSet) : List Token :=
  if ids.isEmpty then [.empty s.name]
  else [.start s.name] ++ (ids.toList.flatMap idTokens ++ [.close s.name])

theorem isPlain_rootName : isPlain rootName = true := by decide

theorem isPlain_idName : isPlain idName = true := by decide

theorem Section.isPlain_name (s : Section) : isPlain s.name = true := by
  cases s <;> decide

theorem reads_id (id : String) :
    Reads ("    <" ++ idName ++ ">" ++ escape id ++ "</" ++ idName ++ ">" ++ "\n")
      (idTokens id) := by
  have htext : '<' ∉ (escape id).toList := by
    rw [escape, String.toList_ofList]
    exact escapeList_no_markup _
  have hid := (Reads.start isPlain_idName).append
    (Reads.textClose isPlain_idName (escape id) htext)
  exact hid.line "    " (by decide) (by simp)

theorem reads_section (s : Section) (ids : TextSet) :
    Reads (String.join ((sectionLines s ids).map (· ++ "\n"))) (s.tokens ids) := by
  unfold sectionLines Section.tokens
  by_cases h : ids.isEmpty = true
  · rw [if_pos h, if_pos h]
    exact (Reads.empty s.isPlain_name).line "  " (by decide) (by simp)
  · rw [if_neg h, if_neg h]
    have hstart : Reads ("  <" ++ s.name ++ ">" ++ "\n") [.start s.name] :=
      (Reads.start s.isPlain_name).line "  " (by decide) (by simp)
    have hclose : Reads ("  </" ++ s.name ++ ">" ++ "\n") [.close s.name] :=
      (Reads.close s.isPlain_name).line "  " (by decide) (by simp)
    have hids : Reads (String.join (ids.toList.map fun id =>
        "    <" ++ idName ++ ">" ++ escape id ++ "</" ++ idName ++ ">" ++ "\n"))
        (ids.toList.flatMap idTokens) := Reads.join fun id _ => reads_id id
    have hall := hstart.append (hids.append hclose)
    simpa [String.append_assoc, Function.comp_def] using hall

def documentTokens (b : Baseline) : List Token :=
  [.start rootName] ++
    (Section.tokens .manual b.manual ++ (Section.tokens .current b.current ++ [.close rootName]))

theorem tokens_render (b : Baseline) : tokens b.render = b.documentTokens := by
  have hdeclaration : Reads "<?xml version=\"1.0\" encoding=\"UTF-8\"?>\n" [] :=
    (Reads.instruction "xml version=\"1.0\" encoding=\"UTF-8\"" (by decide)).line "" (by decide)
      (by decide)
  have hstart : Reads ("<" ++ rootName ++ ">" ++ "\n") [.start rootName] :=
    (Reads.start isPlain_rootName).line "" (by decide) (by simp)
  have hclose : Reads ("</" ++ rootName ++ ">" ++ "\n") [.close rootName] :=
    (Reads.close isPlain_rootName).line "" (by decide) (by simp)
  have hall := hdeclaration.append (hstart.append ((reads_section .manual b.manual).append
    ((reads_section .current b.current).append hclose)))
  apply tokens_of_reads
  · simpa [render, documentTokens, String.append_assoc] using hall
  · simp [render]

/-! ### Reading the tokens -/

/-- Trimming twice is trimming once, so what the markup reader strips makes no difference. -/
theorem record_trimList (b : Baseline) (s : Section) (id : String) :
    b.record s (String.ofList (Text.trimList Text.isAsciiBlank id.toList)) = b.record s id := by
  have htrim : Text.trim (String.ofList (Text.trimList Text.isAsciiBlank id.toList)) =
      Text.trim id := by
    simp only [Text.trim, String.toList_ofList]
    rw [Text.trimList_trimList fun _ => Text.isBlank_of_isAsciiBlank]
  simp only [record, htrim]

theorem foldlM_textTokens (b : Baseline) (s : Section) (id : String) :
    (textTokens (escape id).toList).foldlM step (.inId s "", b) =
      .ok (.inId s (String.ofList (Text.trimList Text.isAsciiBlank id.toList)), b) := by
  have hunescape := unescapeList?_escapeList (Text.trimList Text.isAsciiBlank id.toList)
  unfold textTokens
  rw [escape, String.toList_ofList, trimList_escapeList]
  generalize Text.trimList Text.isAsciiBlank id.toList = text at hunescape ⊢
  by_cases h : (escapeList text).isEmpty = true
  · -- Nothing was written, so there is no token, and no text either.
    rw [List.isEmpty_iff.mp h] at hunescape ⊢
    obtain rfl := Option.some.inj hunescape
    rfl
  · have htext : step (.inId s "", b) (.text (escapeList text)) =
        .ok (.inId s (String.ofList text), b) := by
      simp [step, hunescape, readText, Except.map]
    simp only [if_neg h]
    exact Success.foldlM_singleton htext

theorem foldlM_idTokens (b : Baseline) (s : Section) (id : String) :
    (idTokens id).foldlM step (.inSection s, b) = .ok (.inSection s, b.record s id) := by
  have hopen : step (.inSection s, b) (.start idName) = .ok (.inId s "", b) := rfl
  have hclose (text : String) : step (.inId s text, b) (.close idName) =
      .ok (.inSection s, b.record s text) := by
    cases s <;> rfl
  rw [idTokens, Success.foldlM_append (Success.foldlM_singleton hopen),
    Success.foldlM_append (foldlM_textTokens b s id), Success.foldlM_singleton (hclose _),
    record_trimList]

theorem foldlM_ids (s : Section) (ids : List String) (b : Baseline) :
    (ids.flatMap idTokens).foldlM step (.inSection s, b) =
      .ok (.inSection s, ids.foldl (fun b id => b.record s id) b) := by
  induction ids generalizing b with
  | nil => rfl
  | cons id rest ih =>
    rw [List.flatMap_cons, Success.foldlM_append (foldlM_idTokens b s id), ih, List.foldl_cons]

theorem foldlM_section (s : Section) (ids : TextSet) (b : Baseline) :
    (s.tokens ids).foldlM step (.inRoot, b) =
      .ok (.inRoot, ids.toList.foldl (fun b id => b.record s id) b) := by
  have hempty : step (.inRoot, b) (.empty s.name) = .ok (.inRoot, b) := by cases s <;> rfl
  have hopen : step (.inRoot, b) (.start s.name) = .ok (.inSection s, b) := by cases s <;> rfl
  have hclose (b' : Baseline) : step (.inSection s, b') (.close s.name) = .ok (.inRoot, b') := by
    cases s <;> rfl
  unfold Section.tokens
  by_cases h : ids.isEmpty = true
  · have hids : ids.toList = [] := List.isEmpty_iff.mp h
    rw [if_pos h, hids, Success.foldlM_singleton hempty, List.foldl_nil]
  · rw [if_neg h, Success.foldlM_append (Success.foldlM_singleton hopen),
      Success.foldlM_append (foldlM_ids s ids.toList b), Success.foldlM_singleton (hclose _)]

theorem foldl_record (s : Section) (ids : List String) (b : Baseline) :
    ids.foldl (fun b id => b.record s id) b =
      let add (ts : TextSet) := (legible ids).foldl (fun ts id => ts.insert id) ts
      match s with
      | .manual => { b with manual := add b.manual }
      | .current => { b with current := add b.current } := by
  induction ids generalizing b with
  | nil => cases s <;> rfl
  | cons id rest ih =>
    rw [List.foldl_cons, ih]
    by_cases h : (Text.trim id).isEmpty = true
    · cases s <;> simp [record, legible, h]
    · cases s <;> simp [record, legible, h]

theorem parse_render (b : Baseline) : parse b.render = .ok b.trimmed := by
  have hopen : step (.beforeRoot, {}) (.start rootName) = .ok (.inRoot, {}) := rfl
  have hclose (b : Baseline) : step (.inRoot, b) (.close rootName) = .ok (.afterRoot, b) := rfl
  -- Neither section touches what was recorded for the other one.
  have hread : b.documentTokens.foldlM step (.beforeRoot, {}) = .ok (.afterRoot, b.trimmed) := by
    rw [documentTokens, Success.foldlM_append (Success.foldlM_singleton hopen),
      Success.foldlM_append (foldlM_section .manual b.manual {}),
      Success.foldlM_append (foldlM_section .current b.current _),
      Success.foldlM_singleton (hclose _), foldl_record, foldl_record]
    rfl
  rw [parse, tokens_render, ofTokens_eq, hread]
  rfl

end CodeAudit.Baseline
