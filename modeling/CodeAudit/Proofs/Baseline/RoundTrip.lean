import CodeAudit.Proofs.Baseline.Tidy

namespace CodeAudit.Baseline

def ids (b : Baseline) : Section → TextSet
  | .manual => b.manual
  | .current => b.current

/-- Reads a document and renders what was read, a number of times. -/
def rerendered (document : String) : Nat → Except Defect String
  | 0 => .ok document
  | n + 1 => (rerendered document n).bind fun document => (parse document).map render

theorem ids_trimmed (b : Baseline) (s : Section) :
    b.trimmed.ids s = .ofList (legible (b.ids s).toList) := by
  cases s <;> rfl

theorem tidy_trimmed (b : Baseline) : b.trimmed.Tidy := tidy_of_parse (parse_render b)

theorem Tidy.of_ids {b : Baseline} (h : b.Tidy) (s : Section) {id : String}
    (hid : (b.ids s).contains id = true) : Text.trim id = id ∧ id.isEmpty = false := by
  apply h
  cases s with
  | manual => exact Bool.or_eq_true_iff.mpr (.inr hid)
  | current => exact Bool.or_eq_true_iff.mpr (.inl hid)

theorem Tidy.trimmed_eq {b : Baseline} (h : b.Tidy) : b.trimmed = b := by
  have hids (s : Section) : b.trimmed.ids s = b.ids s := by
    rw [ids_trimmed]
    exact ofList_legible fun id hid => h.of_ids s hid
  calc b.trimmed = ⟨b.trimmed.ids .manual, b.trimmed.ids .current⟩ := rfl
    _ = ⟨b.ids .manual, b.ids .current⟩ := by rw [hids, hids]
    _ = b := rfl

theorem readable_iff_trimmed_eq (b : Baseline) :
    (∃ document, parse document = .ok b) ↔ b.trimmed = b := by
  constructor
  · rintro ⟨document, hparse⟩
    exact (tidy_of_parse hparse).trimmed_eq
  · intro h
    exact ⟨b.render, by rw [parse_render, h]⟩

theorem rerendered_step {document : String} {n : Nat} {b : Baseline}
    (h : rerendered document n = .ok b.render) :
    rerendered document (n + 1) = .ok b.trimmed.render := by
  have hread : (parse b.render).map render = .ok b.trimmed.render := by
    rw [parse_render]
    rfl
  rw [rerendered, h]
  exact hread

theorem rerendered_succ (b : Baseline) (n : Nat) :
    rerendered b.render (n + 1) = .ok b.trimmed.render := by
  induction n with
  | zero => exact rerendered_step (b := b) rfl
  | succ n ih =>
    have hnext := rerendered_step ih
    rwa [b.tidy_trimmed.trimmed_eq] at hnext

/-- A rendered baseline can be read, and what is read holds in each section just the trimmed ids of
that section, without the blank ones. It is the same baseline again exactly when some document reads
as it; and reading and rendering once more, however often, leaves the document as the first time
left it. -/
theorem rendering_reads_back (b : Baseline) :
    ∃ read, parse b.render = .ok read ∧
      (∀ s id, (read.ids s).contains id = true ↔
        id ≠ "" ∧ ∃ written, (b.ids s).contains written = true ∧ Text.trim written = id) ∧
      ((∃ document, parse document = .ok b) ↔ read = b) ∧
      ∀ n, rerendered b.render (n + 1) = .ok read.render := by
  refine ⟨b.trimmed, parse_render b, ?_, readable_iff_trimmed_eq b, rerendered_succ b⟩
  intro s id
  rw [ids_trimmed, contains_legible, ne_eq, ← String.isEmpty_iff, Bool.not_eq_true]

/-- Markup in an id survives, white space around it does not, and a section may be left empty. -/
example : parse (render {
      manual := .ofList [" \u00a0", "R:a.kt:f(List<Any?>) & \"b\"\n"]
      current := .ofList ["\t"] }) =
    .ok { manual := .ofList ["R:a.kt:f(List<Any?>) & \"b\""] } := by
  rw [parse_render]
  decide +kernel

end CodeAudit.Baseline
