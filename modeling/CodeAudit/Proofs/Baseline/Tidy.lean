import CodeAudit.Proofs.Baseline.File
import CodeAudit.Proofs.Ordered.TextSet

namespace CodeAudit.Baseline

/-- Every id is as reading leaves it: trimmed and not empty. -/
def Tidy (b : Baseline) : Prop :=
  ∀ id, b.contains id = true → Text.trim id = id ∧ id.isEmpty = false

theorem tidy_empty : ({} : Baseline).Tidy := by
  intro id h
  cases h

theorem contains_record (b : Baseline) (s : Section) (text id : String) :
    (b.record s text).contains id =
      (!(Text.trim text).isEmpty && id == Text.trim text || b.contains id) := by
  unfold record
  cases hblank : (Text.trim text).isEmpty with
  | true =>
    simp only [hblank]
    rfl
  | false =>
    simp only [hblank]
    cases s <;> simp [contains, TextSet.contains_insert, Bool.or_assoc, Bool.or_left_comm]

theorem Tidy.record {b : Baseline} (h : b.Tidy) (s : Section) (text : String) :
    (b.record s text).Tidy := by
  intro id hid
  rw [contains_record, Bool.or_eq_true, Bool.and_eq_true, beq_iff_eq, Bool.not_eq_true'] at hid
  rcases hid with ⟨hblank, rfl⟩ | hid
  · exact ⟨Text.trim_trim text, hblank⟩
  · exact h id hid

theorem Tidy.step {state state' : Position × Baseline} {token : Xml.Token} (h : state.2.Tidy)
    (hstep : Baseline.step state token = .ok state') : state'.2.Tidy := by
  obtain ⟨p, b⟩ := state
  cases token with
  | start name =>
    obtain ⟨q, -, rfl⟩ := Success.of_map hstep
    exact h
  | empty name =>
    obtain ⟨q, -, rfl⟩ := Success.of_map hstep
    exact h
  | text raw =>
    simp only [Baseline.step] at hstep
    split at hstep
    · obtain ⟨q, -, rfl⟩ := Success.of_map hstep
      exact h
    · cases hstep
  | broken => cases hstep
  | close name =>
    simp only [Baseline.step, closeElement] at hstep
    split at hstep
    · cases hstep
    cases p with
    -- Only the end of an id records anything.
    | inId s text =>
      obtain rfl := Except.ok.inj hstep
      dsimp only
      exact h.record s text
    | inSection s =>
      obtain rfl := Except.ok.inj hstep
      exact h
    | inRoot =>
      obtain rfl := Except.ok.inj hstep
      exact h
    | beforeRoot => cases hstep
    | afterRoot => cases hstep

theorem tidy_of_parse {document : String} {b : Baseline} (h : parse document = .ok b) :
    b.Tidy := by
  rw [parse, ofTokens_eq] at h
  obtain ⟨⟨p, read⟩, hread, h⟩ := Success.of_bind h
  have htidy : read.Tidy :=
    Success.foldlM_preserves (P := fun state => state.2.Tidy) Tidy.step tidy_empty hread
  cases p with
  | afterRoot =>
    obtain rfl := Except.ok.inj h
    exact htidy
  | beforeRoot => cases h
  | inRoot => cases h
  | inSection s => cases h
  | inId s text => cases h

theorem tidy_of_load {fs : FileSystem} {path : Path} {b : Baseline} (h : load fs path = .ok b) :
    b.Tidy := by
  cases hexists : fs.exists? path with
  | false =>
    obtain rfl := Except.ok.inj ((load_of_absent hexists).symm.trans h)
    exact tidy_empty
  | true =>
    obtain ⟨text, -, hparse⟩ := read_of_load hexists h
    exact tidy_of_parse hparse

/-! ### Writing and reading again -/

theorem contains_legible {ts : TextSet} {id : String} :
    (TextSet.ofList (legible ts.toList)).contains id = true ↔
      id.isEmpty = false ∧ ∃ written, ts.contains written = true ∧ Text.trim written = id := by
  rw [TextSet.contains_ofList, List.contains_iff_mem, legible, List.mem_filter, List.mem_map,
    and_comm]
  simp [TextSet.contains]

theorem ofList_legible {ts : TextSet}
    (h : ∀ id, ts.contains id = true → Text.trim id = id ∧ id.isEmpty = false) :
    TextSet.ofList (legible ts.toList) = ts := by
  apply TextSet.eq_of_contains
  intro id
  rw [Bool.eq_iff_iff, contains_legible]
  constructor
  · rintro ⟨-, written, hwritten, rfl⟩
    rwa [(h written hwritten).1]
  · intro hid
    exact ⟨(h id hid).2, id, hid, (h id hid).1⟩

theorem manual_trimmed_withFindings {b : Baseline} (h : b.Tidy) (findings : List Finding) :
    (b.withFindings findings).trimmed.manual = b.manual := by
  apply ofList_legible
  intro id hid
  apply h
  simp only [withFindings] at hid
  simp [contains, hid]

/-- The current ids of an update depend on the ids kept by hand and on which findings there are. -/
theorem withFindings_congr {b b' : Baseline} (hmanual : b.manual = b'.manual)
    {fs fs' : List Finding} (h : ∀ f, f ∈ fs ↔ f ∈ fs') :
    b.withFindings fs = b'.withFindings fs' := by
  unfold withFindings
  rw [hmanual, mk.injEq]
  refine ⟨rfl, TextSet.ofList_eq_of_mem_iff fun id => ?_⟩
  simp only [List.mem_filter, List.mem_map, h]

end CodeAudit.Baseline
