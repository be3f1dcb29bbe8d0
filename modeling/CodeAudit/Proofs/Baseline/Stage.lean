import CodeAudit.Pipeline.Extension
import CodeAudit.Proofs.Baseline.File
import CodeAudit.Proofs.Finding.Order

namespace CodeAudit

namespace Baseline

theorem records_of_isEmpty {b : Baseline} (h : b.isEmpty = true) (f : Finding) :
    b.records f = false := by
  simp only [isEmpty, TextSet.isEmpty, Bool.and_eq_true, List.isEmpty_iff] at h
  simp [records, contains, TextSet.contains, h]

theorem keep_append (b : Baseline) (fs gs : List Finding) :
    b.keep (fs ++ gs) = b.keep fs ++ b.keep gs := List.filter_append ..

theorem keep_of_isEmpty {b : Baseline} (h : b.isEmpty = true) (fs : List Finding) :
    b.keep fs = fs := by
  unfold keep
  rw [List.filter_eq_self]
  intro f _
  simp [records_of_isEmpty h]

theorem blocked_of_isEmpty {b : Baseline} (h : b.isEmpty = true) (fs : List Finding) :
    b.blocked fs = [] := by
  unfold blocked
  rw [List.filter_eq_nil_iff]
  intro f _
  simp [records_of_isEmpty h]

theorem keep_of_unsuppressible (b : Baseline) {fs : List Finding}
    (h : ∀ f ∈ fs, f.suppressible = false) : b.keep fs = fs := by
  unfold keep
  rw [List.filter_eq_self]
  intro f hf
  simp [h f hf]

theorem blocked_of_unsuppressible (b : Baseline) {fs : List Finding}
    (h : ∀ f ∈ fs, f.suppressible = false) : b.blocked fs = fs.filter b.records := by
  apply List.filter_congr
  intro f hf
  simp [h f hf]

/-- A baseline drops no finding that cannot be suppressed, not even one of several copies. -/
theorem count_keep (b : Baseline) {f : Finding} (h : f.suppressible = false) (fs : List Finding) :
    (b.keep fs).count f = fs.count f := by
  exact List.count_filter (by simp [h])

end Baseline

namespace BaselineStage

/-- A baseline that was read is remembered, and it was remembered before or loaded just now. -/
theorem of_read {s s' : BaselineStage} {fs : FileSystem} {b : Baseline}
    (h : s.read fs = .ok (s', b)) :
    s' = { s with loaded := some b } ∧
      (s.loaded = some b ∨ s.loaded = none ∧ Baseline.load fs s.path = .ok b) := by
  unfold BaselineStage.read at h
  split at h
  next known hknown =>
    obtain ⟨rfl, rfl⟩ := Prod.mk.inj (Except.ok.inj h)
    exact ⟨by rw [← hknown], .inl hknown⟩
  next hunknown =>
    obtain ⟨loaded, hloaded, h⟩ := Success.of_bind h
    obtain ⟨rfl, rfl⟩ := Prod.mk.inj (Except.ok.inj h)
    exact ⟨rfl, .inr ⟨hunknown, hloaded⟩⟩

theorem read_of_observe {s s' : BaselineStage} {fs fs' : FileSystem} {r : AnalysisResult}
    (hcreate : s.create = true) (h : s.observe fs r = .ok (s', fs')) :
    ∃ outcome b, Baseline.update fs s.path r.findings = .ok (fs', outcome) ∧ s.read fs' = .ok (s', b) := by
  simp only [observe, hcreate, if_true] at h
  obtain ⟨updated, hupdated, h⟩ := Success.of_bind h
  obtain ⟨⟨stored, outcome⟩, hupdate, rfl⟩ := Success.of_map hupdated
  obtain ⟨⟨read, b⟩, hread, h⟩ := Success.of_bind h
  obtain ⟨rfl, rfl⟩ := Prod.mk.inj (Except.ok.inj h)
  exact ⟨outcome, b, hupdate, hread⟩

theorem files_of_observe {s s' : BaselineStage} {fs fs' : FileSystem} {r : AnalysisResult}
    (h : s.observe fs r = .ok (s', fs')) :
    fs' = if s.create then Baseline.updated fs s.path r.findings else fs := by
  by_cases hcreate : s.create = true
  · obtain ⟨outcome, -, hupdate, -⟩ := read_of_observe hcreate h
    rw [if_pos hcreate, Baseline.updated_of_update hupdate]
  · rw [observe, if_neg hcreate] at h
    obtain ⟨written, hwritten, h⟩ := Success.of_bind h
    obtain ⟨read, -, h⟩ := Success.of_bind h
    -- Reading the baseline afterwards changes no file.
    rw [if_neg hcreate, Except.ok.inj hwritten]
    exact (Prod.mk.inj (Except.ok.inj h)).2.symm

theorem observe_eq_ok {s : BaselineStage} {fs fs' : FileSystem} {r : AnalysisResult}
    {outcome : Baseline.Outcome} {b : Baseline} (hcreate : s.create = true)
    (hupdate : Baseline.update fs s.path r.findings = .ok (fs', outcome))
    (hload : Baseline.load fs' s.path = .ok b) :
    s.observe fs r = .ok ({ s with loaded := some (s.loaded.getD b) }, fs') := by
  obtain ⟨path, create, loaded⟩ := s
  obtain rfl : create = true := hcreate
  have hread : read ⟨path, true, loaded⟩ fs' =
      .ok (⟨path, true, some (loaded.getD b)⟩, loaded.getD b) := by
    cases loaded with
    | none =>
      simp only [read, hload]
      rfl
    | some known => rfl
  simp only [observe, if_true, hupdate]
  change (read ⟨path, true, loaded⟩ fs' >>= fun read => pure (read.1, fs')) = _
  rw [hread]
  rfl

theorem findings_apply_perm (b : Baseline) (r : AnalysisResult) :
    (apply b r).findings.Perm (b.keep r.findings) := by
  unfold apply
  by_cases h : b.isEmpty = true
  · rw [if_pos h, Baseline.keep_of_isEmpty h]
  · rw [if_neg h]
    exact Finding.sort_perm _

theorem notifications_apply (b : Baseline) (r : AnalysisResult) :
    (apply b r).notifications = r.notifications ++ (b.blocked r.findings).map blockedWarning := by
  unfold apply
  by_cases h : b.isEmpty = true
  · rw [if_pos h, Baseline.blocked_of_isEmpty h]
    simp
  · rw [if_neg h]
    rfl

theorem transform_eq_ok {s s' : BaselineStage} {fs : FileSystem} {b : Baseline}
    (h : s.read fs = .ok (s', b)) (r : AnalysisResult) :
    s.transform fs r = .ok (s', apply b r) := by
  rw [transform, h]
  rfl

end BaselineStage

end CodeAudit
