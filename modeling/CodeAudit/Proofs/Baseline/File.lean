import CodeAudit.Baseline.File
import CodeAudit.Proofs.Baseline.Document
import CodeAudit.Proofs.FileSystem

namespace CodeAudit.Baseline

theorem load_of_read {fs : FileSystem} {path : Path} {text : String}
    (h : fs.read path = .ok text) : load fs path = (parse text).mapError (.refused path) := by
  have hexists := FileSystem.exists?_of_read h
  simp only [load, hexists, h]
  rfl

theorem load_of_read_render {fs : FileSystem} {path : Path} {b : Baseline}
    (h : fs.read path = .ok b.render) : load fs path = .ok b.trimmed := by
  rw [load_of_read h, parse_render]
  rfl

theorem read_of_store {fs fs' : FileSystem} {path : Path} {text : String}
    (h : store fs path text = .ok fs') : fs'.read path = .ok text := by
  obtain ⟨made, -, h⟩ := Success.of_bind h
  exact (FileSystem.read_write (Success.of_mapError h)).2

theorem of_update {fs fs' : FileSystem} {path : Path} {findings : List Finding}
    {outcome : Outcome} (h : update fs path findings = .ok (fs', outcome)) :
    (outcome = .skipped ∧ findings = [] ∧ fs' = fs ∧ fs.exists? path = false) ∨
      outcome ≠ .skipped ∧ ∃ old, load fs path = .ok old ∧
        fs'.read path = .ok (old.withFindings findings).render := by
  unfold update at h
  dsimp only at h
  split at h
  · rename_i hnothing
    obtain ⟨rfl, rfl⟩ := Prod.mk.inj (Except.ok.inj h)
    simp only [Bool.and_eq_true, Bool.not_eq_true', List.isEmpty_iff] at hnothing
    exact .inl ⟨rfl, hnothing.2, rfl, hnothing.1⟩
  · right
    obtain ⟨old, hload, h⟩ := Success.of_bind h
    -- The file is left alone only if it holds the document already.
    split at h
    · rename_i hsame
      obtain ⟨rfl, rfl⟩ := Prod.mk.inj (Except.ok.inj h)
      exact ⟨by decide, old, hload, Success.of_toOption (beq_iff_eq.mp hsame)⟩
    · obtain ⟨stored, hstore, h⟩ := Success.of_bind h
      obtain ⟨rfl, rfl⟩ := Prod.mk.inj (Except.ok.inj h)
      exact ⟨by decide, old, hload, read_of_store hstore⟩

/-! ### How an update ends -/

theorem load_congr {fs fs' : FileSystem} {path : Path} (h : fs'.find path = fs.find path) :
    load fs' path = load fs path := by
  have hexists : fs'.exists? path = fs.exists? path := by rw [FileSystem.exists?, h]; rfl
  have hread : fs'.read path = fs.read path := by rw [FileSystem.read, h]; rfl
  rw [load, hexists, hread]
  rfl

theorem load_of_absent {fs : FileSystem} {path : Path} (h : fs.exists? path = false) :
    load fs path = .ok {} := by
  simp only [load, h]
  rfl

theorem read_of_load {fs : FileSystem} {path : Path} {b : Baseline}
    (hexists : fs.exists? path = true) (h : load fs path = .ok b) :
    ∃ text, fs.read path = .ok text ∧ parse text = .ok b := by
  simp only [load, hexists] at h
  obtain ⟨text, hread, h⟩ := Success.of_bind h
  exact ⟨text, Success.of_mapError hread, Success.of_mapError h⟩

theorem update_of_absent {fs : FileSystem} {path : Path} (h : fs.exists? path = false) :
    update fs path [] = .ok (fs, .skipped) := by
  simp only [update, h]
  rfl

theorem update_of_same {fs : FileSystem} {path : Path} {findings : List Finding} {old : Baseline}
    (hload : load fs path = .ok old) (hread : fs.read path = .ok (old.withFindings findings).render) :
    update fs path findings = .ok (fs, .unchanged) := by
  have hexists := FileSystem.exists?_of_read hread
  simp only [update, hexists, hload, hread]
  simp [bind, Except.bind, pure, Except.pure, Except.toOption]

theorem store_eq_ok {fs made stored : FileSystem} {path : Path} {text : String}
    (hdirs : fs.makeDirs [] path.components.dropLast = .ok made)
    (hwrite : made.write path text = .ok stored) : store fs path text = .ok stored := by
  rw [store, hdirs]
  change (made.write path text).mapError BaselineError.io = .ok stored
  rw [hwrite]
  rfl

theorem update_of_store {fs stored : FileSystem} {path : Path} {findings : List Finding}
    {old : Baseline} (hneeded : fs.exists? path = true ∨ findings ≠ [])
    (hload : load fs path = .ok old)
    (hchanged : (fs.read path).toOption ≠ some (old.withFindings findings).render)
    (hstore : store fs path (old.withFindings findings).render = .ok stored) :
    update fs path findings = .ok (stored, .written) := by
  have hdone : (!fs.exists? path && findings.isEmpty) = false := by
    rcases hneeded with hexists | hsome
    · simp [hexists]
    · simp [hsome]
  simp [update, hdone, hload, hchanged, hstore, bind, Except.bind, pure, Except.pure]

theorem exists_update {fs : FileSystem} {path : Path} {old : Baseline}
    (hexists : fs.exists? path = true) (hload : load fs path = .ok old) (findings : List Finding) :
    ∃ r, update fs path findings = .ok r := by
  obtain ⟨text, hread, -⟩ := read_of_load hexists hload
  obtain ⟨hdirs, stored, hwrite⟩ :=
    FileSystem.makeDirs_write_of_read hread (old.withFindings findings).render
  by_cases hsame : (fs.read path).toOption = some (old.withFindings findings).render
  · exact ⟨_, update_of_same hload (Success.of_toOption hsame)⟩
  · exact ⟨_, update_of_store (.inl hexists) hload hsame (store_eq_ok hdirs hwrite)⟩

/-! ### The store an update leaves -/

section

open FileSystem

variable {fs fs' : FileSystem} {path : Path} {findings : List Finding}

theorem confined_store {text : String} (h : store fs path text = .ok fs') :
    Confined (· ∈ path.directories) (path.place? = some ·) fs fs' := by
  obtain ⟨made, hmade, h⟩ := Success.of_bind h
  have hdirs : Confined (· ∈ path.directories) (path.place? = some ·) fs made := by
    rw [← madeDirs_of_makeDirs (Success.of_mapError hmade)]
    exact confined_madeDirs fun q hq => hq
  exact hdirs.trans (confined_write (Success.of_mapError h))

theorem store_of_update {outcome : Outcome} (h : update fs path findings = .ok (fs', outcome)) :
    fs' = fs ∨ ∃ text, store fs path text = .ok fs' := by
  unfold update at h
  dsimp only at h
  split at h
  · exact .inl (Prod.mk.inj (Except.ok.inj h)).1.symm
  · obtain ⟨old, -, h⟩ := Success.of_bind h
    split at h
    · exact .inl (Prod.mk.inj (Except.ok.inj h)).1.symm
    · obtain ⟨stored, hstore, h⟩ := Success.of_bind h
      exact .inr ⟨_, (Prod.mk.inj (Except.ok.inj h)).1 ▸ hstore⟩

theorem updated_of_update {outcome : Outcome} (h : update fs path findings = .ok (fs', outcome)) :
    updated fs path findings = fs' := by
  rw [updated, h]

theorem confined_updated (fs : FileSystem) (path : Path) (findings : List Finding) :
    Confined (· ∈ path.directories) (path.place? = some ·) fs (updated fs path findings) := by
  unfold updated
  split
  next fs' outcome _ hupdate =>
    rcases store_of_update hupdate with rfl | ⟨text, hstore⟩
    · exact .refl _
    · exact confined_store hstore
  next => exact confined_madeDirs fun q hq => hq
  next => exact .refl fs

/-- An update that fails although the old baseline was read has found no file. It leaves none, though
a directory it has made can be at the path afterwards. -/
theorem absent_of_failed_update {old : Baseline} {e : BaselineError}
    (hload : load fs path = .ok old) (h : update fs path findings = .error e)
    (hplain : (updated fs path findings).isDirectory path = false) :
    fs.exists? path = false ∧ (updated fs path findings).exists? path = false := by
  have habsent : fs.exists? path = false := by
    rw [Bool.eq_false_iff]
    intro hexists
    obtain ⟨r, hr⟩ := exists_update hexists hload findings
    cases hr.symm.trans h
  refine ⟨habsent, ?_⟩
  rw [Bool.eq_false_iff]
  intro hexists
  obtain ⟨text, hread⟩ := exists_read hexists hplain
  have hmade : updated fs path findings = fs.madeDirs [] path.components.dropLast := by
    rw [updated, h, hload]
  rw [hmade] at hread
  -- The directories could all be made, and then nothing keeps the file from being written.
  obtain ⟨-, stored, hwrite⟩ := makeDirs_write_of_read hread (old.withFindings findings).render
  have hstore := store_eq_ok (makeDirs_of_read_madeDirs hread) hwrite
  have hsome : findings ≠ [] := by
    rintro rfl
    cases (update_of_absent habsent).symm.trans h
  have hunread : (fs.read path).toOption ≠ some (old.withFindings findings).render := by
    intro hsame
    cases (exists?_of_read (Success.of_toOption hsame)).symm.trans habsent
  cases (update_of_store (.inr hsome) hload hunread hstore).symm.trans h

theorem not_isDirectory_of_load {b : Baseline} (h : load fs path = .ok b) :
    fs.isDirectory path = false := by
  rw [Bool.eq_false_iff]
  intro hdirectory
  obtain ⟨place, hfind⟩ := exists_of_isDirectory hdirectory
  have hexists : fs.exists? path = true := by
    rw [exists?, hfind]
    rfl
  obtain ⟨text, hread, -⟩ := read_of_load hexists h
  obtain ⟨place', hfile⟩ := find_of_read hread
  cases hfind.symm.trans hfile

theorem not_isDirectory_of_update {outcome : Outcome}
    (h : update fs path findings = .ok (fs', outcome)) : fs.isDirectory path = false := by
  rcases of_update h with ⟨-, -, -, habsent⟩ | ⟨-, old, hload, -⟩
  · exact not_isDirectory_of_load (load_of_absent habsent)
  · exact not_isDirectory_of_load hload

theorem updated_of_isDirectory (h : fs.isDirectory path = true) (findings : List Finding) :
    updated fs path findings = fs := by
  cases hupdate : update fs path findings with
  | ok r => cases h.symm.trans (not_isDirectory_of_update hupdate)
  | error e =>
    cases hload : load fs path with
    | ok b => cases h.symm.trans (not_isDirectory_of_load hload)
    | error e' => rw [updated, hupdate, hload]

/-- A directory at the path would still be there after an update. -/
theorem not_isDirectory_of_updated (h : (updated fs path findings).isDirectory path = false) :
    fs.isDirectory path = false := by
  rw [Bool.eq_false_iff]
  intro hdirectory
  rw [updated_of_isDirectory hdirectory, hdirectory] at h
  cases h

end

end CodeAudit.Baseline
