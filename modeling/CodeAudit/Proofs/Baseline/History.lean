import CodeAudit.Proofs.Baseline.Acceptance

namespace CodeAudit

namespace Baseline

/-- The ids of the findings, trimmed, without the findings whose id as it is is kept by hand. -/
def recorded (manual : TextSet) (findings : List Finding) : TextSet :=
  .ofList ((findings.filter fun f => !manual.contains f.baselineId).map fun f =>
    Text.trim f.baselineId)

theorem current_trimmed_withFindings (b : Baseline) (findings : List Finding) :
    (b.withFindings findings).trimmed.current = recorded b.manual findings := by
  apply TextSet.eq_of_contains
  intro id
  rw [Bool.eq_iff_iff, trimmed, contains_legible, recorded, TextSet.contains_ofList,
    List.contains_iff_mem, List.mem_map]
  have hwritten (written : String) : (b.withFindings findings).current.contains written = true ↔
      ∃ f ∈ findings.filter (fun f => !b.manual.contains f.baselineId), f.baselineId = written := by
    rw [withFindings, TextSet.contains_ofList, List.contains_iff_mem, List.filter_map, List.mem_map]
    rfl
  simp only [hwritten]
  constructor
  · rintro ⟨-, written, ⟨f, hf, rfl⟩, rfl⟩
    exact ⟨f, hf, rfl⟩
  · rintro ⟨f, hf, rfl⟩
    exact ⟨f.trim_baselineId_ne_empty, f.baselineId, ⟨f, hf, rfl⟩, rfl⟩

/-! ### One update -/

/-- An update that is not skipped leaves a file behind. Loading it finds the ids kept by hand as
they were, and of the others those of the findings. -/
theorem load_of_update {fs fs' : FileSystem} {path : Path} {old : Baseline}
    {findings : List Finding} (hload : load fs path = .ok old)
    (hread : fs'.read path = .ok (old.withFindings findings).render) :
    load fs' path = .ok { manual := old.manual, current := recorded old.manual findings } := by
  rw [load_of_read_render hread, ← current_trimmed_withFindings,
    ← manual_trimmed_withFindings (tidy_of_load hload) findings]

/-- The baseline that an update with findings leaves next to the ids kept by hand. -/
def recording (manual : TextSet) (findings : List Finding) : Baseline :=
  { manual, current := recorded manual findings }

/-- An update that succeeds, skipped or not, leaves what it records next to the ids kept by hand. -/
theorem load_recording {fs fs' : FileSystem} {path : Path} {old : Baseline}
    {findings : List Finding} {outcome : Outcome} (hload : load fs path = .ok old)
    (h : update fs path findings = .ok (fs', outcome)) :
    load fs' path = .ok (recording old.manual findings) := by
  rcases of_update h with ⟨-, rfl, rfl, habsent⟩ | ⟨-, old', hload', hread⟩
  · -- Nothing was recorded, and without a file nothing is kept by hand.
    have hempty : old = {} := Except.ok.inj (hload.symm.trans (load_of_absent habsent))
    rw [hempty]
    exact load_of_absent habsent
  · have hold : old' = old := Except.ok.inj (hload'.symm.trans hload)
    rw [hold] at hread
    exact load_of_update hload hread

/-- The same update again, with its findings in any order and any number of times, finds the file
as it would leave it. -/
theorem repeated_update_changes_nothing {fs fs' : FileSystem} {path : Path}
    {findings again : List Finding} {outcome : Outcome}
    (h : update fs path findings = .ok (fs', outcome)) (hsame : ∀ f, f ∈ again ↔ f ∈ findings) :
    update fs' path again = .ok (fs', if outcome = .skipped then .skipped else .unchanged) := by
  rcases of_update h with ⟨rfl, rfl, rfl, habsent⟩ | ⟨houtcome, old, hload, hread⟩
  · have hnone : again = [] := List.eq_nil_iff_forall_not_mem.mpr fun f => by simp [hsame]
    rw [hnone, if_pos rfl]
    exact update_of_absent habsent
  · rw [if_neg houtcome]
    apply update_of_same (load_of_update hload hread)
    rw [hread]
    congr 2
    exact withFindings_congr rfl fun f => (hsame f).symm

/-! ### A repeated update of a file with an id kept by hand -/

namespace CuratedFile

def finding (signature : String) : Finding where
  ruleId := "R"
  ruleSetId := "style"
  severity := .warning
  message := "m"
  entity := { name := signature, signature, location := { path := ⟨"a.kt"⟩, span := {} } }

/-- The first id is read without its blank, the second is kept by hand. -/
def findings : List Finding := [finding "A ", finding "B"]

def path : Path := ⟨"baseline.xml"⟩

def document : String :=
  "<Baseline><ManuallySuppressedIssues>\n<ID> R:a.kt:B </ID></ManuallySuppressedIssues></Baseline>"

def curated : Baseline := { manual := .ofList ["R:a.kt:B"] }

def holding (document : String) : FileSystem :=
  { entries := [(["baseline.xml"], .file document)], home := ⟨""⟩ }

theorem load_document : load (holding document) path = .ok curated := by
  have hread : (holding document).read path = .ok document := rfl
  have hparse : parse document = .ok curated := by decide +kernel
  rw [load_of_read hread, hparse]
  rfl

theorem update_document : update (holding document) path findings =
    .ok (holding (curated.withFindings findings).render, .written) := by
  simp only [update, load_document]
  rfl

end CuratedFile

open CuratedFile in
/-- The file is written once, and then left alone although one of its ids is never read back as it
was written. -/
theorem repeated_update_of_curated_file :
    let written := holding (curated.withFindings findings).render
    update (holding document) path findings = .ok (written, .written) ∧
      update written path [finding "B", finding "A ", finding "B"] = .ok (written, .unchanged) := by
  refine ⟨update_document, repeated_update_changes_nothing update_document ?_⟩
  intro f
  simp only [findings, List.mem_cons, List.not_mem_nil, or_false]
  tauto

/-! ### Sequences of updates -/

/-- The updates, first to last, lead from one store to the other. -/
inductive History (path : Path) (fs : FileSystem) : List (List Finding) → FileSystem → Prop
  | start : History path fs [] fs
  | call {calls : List (List Finding)} {fs' : FileSystem} (earlier : History path fs calls fs')
      (findings : List Finding) :
      History path fs (calls ++ [findings]) (updated fs' path findings)

section

variable {path : Path} {fs fs' : FileSystem} {calls : List (List Finding)}

theorem load_updated {old : Baseline} {findings : List Finding} (hload : load fs path = .ok old)
    (hplain : (updated fs path findings).isDirectory path = false) :
    ∃ b, load (updated fs path findings) path = .ok b ∧ b.manual = old.manual ∧
      ((updated fs path findings).exists? path = true →
        b.current = recorded old.manual findings) := by
  cases hupdate : update fs path findings with
  | ok r =>
    rw [updated_of_update hupdate]
    exact ⟨_, load_recording hload hupdate, rfl, fun _ => rfl⟩
  | error e =>
    obtain ⟨habsent, hstill⟩ := absent_of_failed_update hload hupdate hplain
    obtain rfl := Except.ok.inj ((load_of_absent habsent).symm.trans hload)
    refine ⟨{}, load_of_absent hstill, rfl, ?_⟩
    simp [hstill]

theorem History.load {first : Baseline} (h : History path fs calls fs')
    (hfirst : Baseline.load fs path = .ok first) (hplain : fs'.isDirectory path = false) :
    ∃ b, Baseline.load fs' path = .ok b ∧ b.manual = first.manual ∧
      ∀ last, calls.getLast? = some last → fs'.exists? path = true →
        b.current = recorded first.manual last := by
  induction h with
  | start => exact ⟨first, hfirst, rfl, by simp⟩
  | call earlier findings ih =>
    obtain ⟨old, hold, hmanual, -⟩ := ih (not_isDirectory_of_updated hplain)
    obtain ⟨b, hload, hkept, hcurrent⟩ := load_updated hold hplain
    rw [hmanual] at hkept hcurrent
    refine ⟨b, hload, hkept, fun last hlast hexists => ?_⟩
    obtain rfl : findings = last := by simpa using hlast
    exact hcurrent hexists

open CuratedFile in
/-- Where no file can be put, an update that fails can leave a directory at the path. -/
example : (updated { entries := [], home := ⟨""⟩ } ⟨"a/../a"⟩ findings).isDirectory ⟨"a/../a"⟩ =
    true := by
  decide +kernel

end

end Baseline

end CodeAudit
