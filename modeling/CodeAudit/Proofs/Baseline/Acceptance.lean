import CodeAudit.Proofs.Baseline.Stage
import CodeAudit.Proofs.Baseline.Tidy
import CodeAudit.Proofs.Pipeline.Extension

namespace CodeAudit

/-- Whether the baseline id begins or ends with white space: the rule begins it, and the signature
ends it. -/
def Finding.hasBlankEdge (f : Finding) : Bool :=
  f.ruleId.toList.head?.any Text.isBlank || f.entity.signature.toList.getLast?.any Text.isBlank

namespace Finding

theorem toList_baselineId (f : Finding) :
    f.baselineId.toList = f.ruleId.toList ++
      ':' :: (f.location.fileName.toList ++ ':' :: f.entity.signature.toList) := by
  simp [baselineId]

theorem trim_baselineId (f : Finding) :
    Text.trim f.baselineId = f.baselineId ↔ f.hasBlankEdge = false := by
  have hhead : (f.baselineId.toList.head?.all fun c => !Text.isBlank c) =
      !f.ruleId.toList.head?.any Text.isBlank := by
    rw [toList_baselineId]
    cases f.ruleId.toList with
    | nil => rfl
    | cons c rest => rfl
  have hlast : (f.baselineId.toList.getLast?.all fun c => !Text.isBlank c) =
      !f.entity.signature.toList.getLast?.any Text.isBlank := by
    rw [toList_baselineId]
    simp only [List.getLast?_append, List.getLast?_cons]
    cases f.entity.signature.toList.getLast? <;> rfl
  rw [Text.trim, ← String.toList_inj, String.toList_ofList, Text.trimList_eq_self_iff, hhead, hlast]
  simp [hasBlankEdge]

theorem trim_baselineId_ne_empty (f : Finding) : (Text.trim f.baselineId).isEmpty = false := by
  rw [Bool.eq_false_iff]
  intro hempty
  obtain ⟨front, back, hsplit, hfront, hback⟩ :=
    Text.exists_eq_append_trimList Text.isBlank f.baselineId.toList
  have hnil : Text.trimList Text.isBlank f.baselineId.toList = [] := by
    simpa [Text.trim] using hempty
  have hcolon : ':' ∈ f.baselineId.toList := by simp [toList_baselineId]
  rw [hsplit, hnil, List.nil_append] at hcolon
  rcases List.mem_append.mp hcolon with h | h
  · exact absurd (hfront _ h) (by decide)
  · exact absurd (hback _ h) (by decide)

end Finding

namespace Baseline

theorem contains_trimmed {b : Baseline} {id : String} :
    b.trimmed.contains id = true ↔
      id.isEmpty = false ∧ ∃ written, b.contains written = true ∧ Text.trim written = id := by
  simp only [contains, Bool.or_eq_true]
  rw [show b.trimmed.current = .ofList (legible b.current.toList) from rfl,
    show b.trimmed.manual = .ofList (legible b.manual.toList) from rfl, contains_legible,
    contains_legible, ← and_or_left, ← exists_or]
  simp only [or_and_right]

theorem contains_withFindings {b : Baseline} {fs : List Finding} {f : Finding} (h : f ∈ fs) :
    (b.withFindings fs).contains f.baselineId = true := by
  unfold contains withFindings
  cases hmanual : b.manual.contains f.baselineId with
  | true => simp [hmanual]
  | false =>
    have hmem : f.baselineId ∈ (fs.map Finding.baselineId).filter fun id => !b.manual.contains id :=
      List.mem_filter.mpr ⟨List.mem_map_of_mem h, by simp [hmanual]⟩
    simp [TextSet.contains_ofList, hmem]

theorem records_trimmed_withFindings {b : Baseline} {fs : List Finding} {f : Finding}
    (h : f ∈ fs) : (b.withFindings fs).trimmed.records f = !f.hasBlankEdge := by
  rw [Bool.eq_iff_iff, Bool.not_eq_true', ← f.trim_baselineId, records, contains_trimmed]
  constructor
  · -- Whatever was read is trimmed, so an id that is not cannot be among it.
    rintro ⟨-, written, -, htrim⟩
    rw [← htrim, Text.trim_trim]
  · intro htrim
    exact ⟨htrim ▸ f.trim_baselineId_ne_empty, f.baselineId, contains_withFindings h, htrim⟩

/-- Unless it was skipped, an update makes its file record all its findings but those with a blank
edge; and it is skipped only for want of findings. -/
theorem keep_of_update {fs fs' : FileSystem} {path : Path} {findings : List Finding}
    {outcome : Outcome} (h : update fs path findings = .ok (fs', outcome)) :
    ∃ b, load fs' path = .ok b ∧
      b.keep findings = findings.filter fun f => !f.suppressible || f.hasBlankEdge := by
  rcases of_update h with ⟨-, rfl, rfl, habsent⟩ | ⟨-, old, -, hread⟩
  · exact ⟨{}, load_of_absent habsent, rfl⟩
  · refine ⟨(old.withFindings findings).trimmed, load_of_read_render hread, ?_⟩
    apply List.filter_congr
    intro f hf
    rw [records_trimmed_withFindings hf, Bool.not_not]

end Baseline

/-- A creating stage that is the only extension updates the baseline, and then drops what the
updated one records. -/
theorem BaselineStage.run_alone {fs fs' : FileSystem} {path : Path} {r : AnalysisResult}
    {outcome : Baseline.Outcome} {b : Baseline}
    (hupdate : Baseline.update fs path r.findings = .ok (fs', outcome))
    (hload : Baseline.load fs' path = .ok b) :
    let p := (Pipeline.ofList [Extension.baseline { path, create := true }]).run fs r
    p.outcome = .ok (apply b r) ∧ p.files = fs' := by
  have hobserve : (Extension.baseline { path, create := true }).observe fs r =
      .ok (.baseline { path, create := true, loaded := some b }, fs') := by
    simp [Extension.observe, BaselineStage.observe, read, hupdate, hload, Except.map, bind,
      Except.bind, pure, Except.pure]
  simp only [Pipeline.run, Pipeline.extensions_singleton, Pipeline.observeAll_cons_of_ok hobserve]
  exact ⟨rfl, rfl⟩

/-- Nothing that may be suppressed is left exactly when no id of it has a blank edge. -/
theorem Finding.left_unsuppressible_iff (findings : List Finding) :
    (∀ f ∈ findings.filter fun f => !f.suppressible || f.hasBlankEdge, f.suppressible = false) ↔
      ∀ f ∈ findings, f.suppressible = true → f.hasBlankEdge = false := by
  constructor
  · intro h f hf hsuppressible
    rw [Bool.eq_false_iff]
    intro hedge
    have hleft := h f (List.mem_filter.mpr ⟨hf, by simp [hedge]⟩)
    exact absurd hsuppressible (by simp [hleft])
  · intro h f hf
    obtain ⟨hmem, hleft⟩ := List.mem_filter.mp hf
    rw [Bool.eq_false_iff]
    intro hsuppressible
    simp [hsuppressible, h f hmem hsuppressible] at hleft

/-- A baseline that was updated with findings accepts all of them that may be suppressed, except for
those whose ids begin or end with white space; so it leaves just the others exactly when there are
none of these. The same holds of a run whose only extension creates the baseline. -/
theorem updated_baseline_accepts_iff {fs fs' : FileSystem} {path : Path} {findings : List Finding}
    {outcome : Baseline.Outcome}
    (h : Baseline.update fs path findings = .ok (fs', outcome)) :
    ∃ b, Baseline.load fs' path = .ok b ∧
      (b.keep findings = findings.filter fun f => !f.suppressible || f.hasBlankEdge) ∧
      (b.keep findings = findings.filter (fun f => !f.suppressible) ↔
        ∀ f ∈ findings, f.suppressible = true → f.hasBlankEdge = false) ∧
      ∀ r : AnalysisResult, r.findings = findings →
        let p := (Pipeline.ofList [Extension.baseline { path, create := true }]).run fs r
        p.files = fs' ∧ ∃ r', p.outcome = .ok r' ∧ r'.findings.Perm (b.keep findings) ∧
          ((∀ f ∈ r'.findings, f.suppressible = false) ↔
            ∀ f ∈ findings, f.suppressible = true → f.hasBlankEdge = false) := by
  obtain ⟨b, hload, hkeep⟩ := Baseline.keep_of_update h
  refine ⟨b, hload, hkeep, ?_, ?_⟩
  · rw [hkeep, ← Finding.left_unsuppressible_iff]
    constructor
    · intro heq f hf
      rw [heq] at hf
      simpa using (List.mem_filter.mp hf).2
    · intro hleft
      apply List.filter_congr
      intro f hf
      cases hsuppressible : f.suppressible with
      | false => rfl
      | true => simp [(Finding.left_unsuppressible_iff findings).mp hleft f hf hsuppressible]
  · rintro r rfl
    obtain ⟨houtcome, hfiles⟩ := BaselineStage.run_alone h hload
    have hperm := BaselineStage.findings_apply_perm b r
    refine ⟨hfiles, _, houtcome, hperm, ?_⟩
    -- The result is sorted anew, so only its members are those that were kept.
    rw [← Finding.left_unsuppressible_iff, ← hkeep]
    exact forall_congr' fun f => imp_congr_left hperm.mem_iff

/-! ### A signature that ends with a blank -/

namespace BlankEdge

def finding (signature : String) : Finding where
  ruleId := "R"
  ruleSetId := "style"
  severity := .warning
  message := "m"
  entity := { name := signature, signature, location := { path := ⟨"a.kt"⟩, span := {} } }

def findings : List Finding := [finding "A ", finding "B"]

def path : Path := ⟨"baseline.xml"⟩

def files : FileSystem := { entries := [], home := ⟨""⟩ }

/-- The store with the baseline of the findings. -/
def updated : FileSystem :=
  { files with
    entries := [(["baseline.xml"], .file (({} : Baseline).withFindings findings).render)] }

end BlankEdge

open BlankEdge in
/-- Both findings are recorded and both may be suppressed, and the one whose signature ends with a
blank is left all the same. -/
theorem updated_baseline_leaves_blank_edge :
    Baseline.update files path findings = .ok (updated, .written) ∧
    (∀ f ∈ findings, f.suppressible = true) ∧
    ∃ b, Baseline.load updated path = .ok b ∧ b.keep findings = [finding "A "] ∧
      b.keep findings ≠ findings.filter (fun f => !f.suppressible) ∧
      ∃ r',
        ((Pipeline.ofList [Extension.baseline { path, create := true }]).run files { findings }).outcome =
          .ok r' ∧ r'.findings = [finding "A "] := by
  have hupdate : Baseline.update files path findings = .ok (updated, .written) := rfl
  obtain ⟨b, hload, hkeep, -, hrun⟩ := updated_baseline_accepts_iff hupdate
  obtain ⟨-, r', houtcome, hperm, -⟩ := hrun { findings } rfl
  have hleft : b.keep findings = [finding "A "] := hkeep
  refine ⟨hupdate, by decide, b, hload, hleft, ?_, r', houtcome, ?_⟩
  · rw [hleft]
    decide
  · rw [hleft] at hperm
    exact List.perm_singleton.mp hperm

end CodeAudit
