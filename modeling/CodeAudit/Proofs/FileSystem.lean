import CodeAudit.FileSystem
import CodeAudit.Proofs.Success

namespace CodeAudit

namespace FileSystem

theorem lookup_map_replace (entries : List (Place × Entry)) (place q : Place) (e : Entry) :
    (entries.map fun x => (x.1, if x.1 == place then e else x.2)).lookup q =
      if q = place then (entries.lookup q).map fun _ => e else entries.lookup q := by
  induction entries with
  | nil => simp
  | cons x rest ih =>
    rw [List.map_cons, List.lookup_cons, List.lookup_cons, ih]
    by_cases hx : q = x.1
    · subst hx
      by_cases h : x.1 = place <;> simp [h]
    · have hne : (q == x.1) = false := beq_false_of_ne hx
      simp only [hne]

theorem entry?_put (fs : FileSystem) {place : Place} (hplace : place ≠ []) (e : Entry)
    (q : Place) : entry? (fs.put place e) q = if q = place then some e else fs.entry? q := by
  by_cases hq : q = []
  · subst hq
    rw [if_neg (Ne.symm hplace)]
    rfl
  have hempty : q.isEmpty = false := by simp [hq]
  unfold entry? put
  rw [hempty]
  -- An entry that is there is replaced in its row; a new one goes to the end.
  by_cases hold : (fs.entries.lookup place).isSome = true
  · rw [if_pos hold]
    simp only [Bool.false_eq_true, if_false]
    rw [lookup_map_replace]
    by_cases h : q = place
    · subst h
      obtain ⟨old, hold⟩ := Option.isSome_iff_exists.mp hold
      simp [hold]
    · simp [h]
  · rw [if_neg hold]
    have hnone : fs.entries.lookup place = none := Option.not_isSome_iff_eq_none.mp hold
    simp only [Bool.false_eq_true, if_false, List.lookup_append, List.lookup_cons, List.lookup_nil]
    by_cases h : q = place
    · subst h
      simp [hnone]
    · simp [h, beq_false_of_ne h]

theorem ne_nil_of_no_directory {fs : FileSystem} {place : Place}
    (h : fs.entry? place ≠ some .directory) : place ≠ [] := by
  rintro rfl
  exact h rfl

theorem entry?_of_walk {fs : FileSystem} {base reached : Place} {c : Component}
    {rest : List Component} (h : fs.walk base (c :: rest) = .ok reached) :
    fs.entry? base = some .directory := by
  unfold walk at h
  revert h
  cases fs.entry? base with
  | none => simp
  | some entry => cases entry <;> simp

theorem walk_cons {fs : FileSystem} {base : Place} (hbase : fs.entry? base = some .directory)
    (c : Component) (rest : List Component) :
    fs.walk base (c :: rest) =
      match c.from? base with
      | some next => fs.walk next rest
      | none => .error .denied := by
  rw [walk.eq_def]
  dsimp only
  rw [hbase]
  cases c with
  | root | here | name s => rfl
  | parent =>
    dsimp only [Component.from?]
    split <;> rfl

theorem walk_put {fs : FileSystem} {place : Place} (hplace : fs.entry? place ≠ some .directory)
    (e : Entry) {base reached : Place} {cs : List Component}
    (h : fs.walk base cs = .ok reached) : (fs.put place e).walk base cs = .ok reached := by
  induction cs generalizing base with
  | nil => exact h
  | cons c rest ih =>
    have hbase := entry?_of_walk h
    -- The walk passes through a directory, and no directory was overwritten.
    have hne : base ≠ place := fun heq => hplace (heq ▸ hbase)
    have hkept : entry? (fs.put place e) base = some .directory := by
      rw [entry?_put fs (ne_nil_of_no_directory hplace), if_neg hne, hbase]
    rw [walk_cons hbase] at h
    rw [walk_cons hkept]
    cases hnext : c.from? base with
    | none =>
      rw [hnext] at h
      cases h
    | some next =>
      rw [hnext] at h
      exact ih h

theorem of_placeToWrite {fs : FileSystem} {p : Path} {place : Place}
    (h : fs.placeToWrite p = .ok place) :
    p.text.isEmpty = false ∧ fs.walk [] p.components = .ok place ∧ namesDirectory p = false ∧
      fs.entry? place ≠ some .directory := by
  unfold placeToWrite at h
  dsimp only at h
  split at h
  · cases h
  rename_i htext
  obtain ⟨reached, hwalk, h⟩ := Success.of_bind h
  -- A path that only names a directory is refused whatever lies there.
  by_cases hname : namesDirectory p = true
  · cases hentry : fs.entry? reached with
    | none => simp [hentry, hname, throw, throwThe, MonadExceptOf.throw, bind, Except.bind] at h
    | some entry => cases entry <;> simp [hentry, hname, throw, throwThe, MonadExceptOf.throw] at h
  · have hreached : reached = place ∧ fs.entry? reached ≠ some .directory := by
      cases hentry : fs.entry? reached with
      | none =>
        simp only [hentry, if_neg hname] at h
        split at h
        · exact ⟨Except.ok.inj h, by simp⟩
        all_goals cases h
      | some entry =>
        cases entry with
        | directory => simp [hentry, throw, throwThe, MonadExceptOf.throw] at h
        | file text =>
          simp only [hentry, if_neg hname] at h
          exact ⟨Except.ok.inj h, by simp⟩
    obtain ⟨rfl, hentry⟩ := hreached
    exact ⟨by simpa using htext, hwalk, by simpa using hname, hentry⟩

theorem read_write {fs fs' : FileSystem} {p : Path} {text : String}
    (h : fs.write p text = .ok fs') : fs'.exists? p = true ∧ fs'.read p = .ok text := by
  obtain ⟨place, hplace, h⟩ := Success.of_bind h
  obtain rfl := Except.ok.inj h
  obtain ⟨htext, hwalk, hname, hentry⟩ := of_placeToWrite hplace
  have hfind : (fs.put place (.file text)).find p = .ok (place, .file text) := by
    unfold find
    rw [walk_put hentry _ hwalk]
    simp [htext, hname, entry?_put fs (ne_nil_of_no_directory hentry), pure, Except.pure, bind,
      Except.bind]
  constructor
  · rw [exists?, hfind]
    rfl
  · rw [read, hfind]
    rfl

theorem exists?_of_read {fs : FileSystem} {p : Path} {text : String}
    (h : fs.read p = .ok text) : fs.exists? p = true := by
  obtain ⟨found, hfind, -⟩ := Success.of_bind h
  rw [exists?, hfind]
  rfl

/-! ### Writing to a file that exists -/

theorem find_of_read {fs : FileSystem} {p : Path} {text : String} (h : fs.read p = .ok text) :
    ∃ place, fs.find p = .ok (place, .file text) := by
  obtain ⟨⟨place, entry⟩, hfind, h⟩ := Success.of_bind h
  cases entry with
  | directory => cases h
  | file held =>
    obtain rfl := Except.ok.inj h
    exact ⟨place, hfind⟩

theorem makeDirs_cons_of_directory {fs : FileSystem} {base : Place}
    (h : fs.entry? base = some .directory) (c : Component) (rest : List Component) :
    fs.makeDirs base (c :: rest) =
      match c.from? base with
      | some next => fs.makeDirs next rest
      | none => .error .denied := by
  rw [makeDirs.eq_def]
  dsimp only
  rw [h]
  cases c with
  | root | here | name s => rfl
  | parent =>
    dsimp only [Component.from?]
    split <;> rfl

/-- Where a walk leads, all directories on the way are there, so that none has to be made. -/
theorem makeDirs_of_walk {fs : FileSystem} {base reached : Place} {cs : List Component}
    (hbase : fs.entry? base = some .directory) (h : fs.walk base cs = .ok reached) :
    fs.makeDirs base cs.dropLast = .ok fs := by
  induction cs generalizing base with
  | nil => simp [makeDirs, hbase]
  | cons c rest ih =>
    match rest with
    | [] => simp [makeDirs, hbase]
    | c' :: rest' =>
      rw [List.dropLast_cons_of_ne_nil (by simp), makeDirs_cons_of_directory hbase]
      rw [walk_cons hbase] at h
      cases hnext : c.from? base with
      | none =>
        rw [hnext] at h
        cases h
      | some next =>
        rw [hnext] at h
        exact ih (entry?_of_walk h) h

theorem of_find {fs : FileSystem} {p : Path} {place : Place} {text : String}
    (h : fs.find p = .ok (place, .file text)) :
    p.text.isEmpty = false ∧ fs.walk [] p.components = .ok place ∧ namesDirectory p = false ∧
      fs.entry? place = some (.file text) := by
  unfold find at h
  dsimp only at h
  split at h
  · cases h
  rename_i htext
  obtain ⟨reached, hwalk, h⟩ := Success.of_bind h
  cases hentry : fs.entry? reached with
  | none => simp [hentry, throw, throwThe, MonadExceptOf.throw] at h
  | some entry =>
    cases entry with
    | directory => simp [hentry, pure, Except.pure] at h
    | file held =>
      simp only [hentry] at h
      split at h
      · cases h
      · rename_i hname
        obtain ⟨rfl, hheld⟩ := Prod.mk.inj (Except.ok.inj h)
        exact ⟨by simpa using htext, hwalk, by simpa using hname, by rw [hentry, hheld]⟩

theorem makeDirs_write_of_read {fs : FileSystem} {p : Path} {text : String}
    (h : fs.read p = .ok text) (new : String) :
    fs.makeDirs [] p.components.dropLast = .ok fs ∧ ∃ fs', fs.write p new = .ok fs' := by
  obtain ⟨place, hfind⟩ := find_of_read h
  obtain ⟨htext, hwalk, hname, hentry⟩ := of_find hfind
  have hplace : fs.placeToWrite p = .ok place := by
    simp [placeToWrite, htext, hwalk, hname, hentry, pure, Except.pure, bind, Except.bind]
  refine ⟨makeDirs_of_walk rfl hwalk, fs.put place (.file new), ?_⟩
  rw [write, hplace]
  rfl

end FileSystem

/-! ### Places of a path -/

namespace Path

/-- The place that components lead to from another, going by names alone. -/
def locate : Place → List Component → Option Place
  | base, [] => some base
  | base, c :: rest => (c.from? base).bind (locate · rest)

/-- The places that components lead through, both ends included. -/
def waypoints : Place → List Component → List Place
  | base, [] => [base]
  | base, c :: rest =>
    base ::
      match c.from? base with
      | some next => waypoints next rest
      | none => []

def place? (p : Path) : Option Place := locate [] p.components

/-- The places of the directories on the way to the path. -/
def directories (p : Path) : List Place := waypoints [] p.components.dropLast

theorem base_mem_waypoints (base : Place) (cs : List Component) : base ∈ waypoints base cs := by
  cases cs <;> exact List.mem_cons_self

end Path

namespace FileSystem

variable {dirs files : Place → Prop} {fs fs' fs'' : FileSystem}

theorem locate_of_walk {base reached : Place} {cs : List Component}
    (h : fs.walk base cs = .ok reached) : Path.locate base cs = some reached := by
  induction cs generalizing base with
  | nil => exact congrArg some (Except.ok.inj h)
  | cons c rest ih =>
    rw [walk_cons (entry?_of_walk h)] at h
    rw [Path.locate]
    cases hnext : c.from? base with
    | none =>
      rw [hnext] at h
      cases h
    | some next =>
      rw [hnext] at h
      exact ih h

/-! ### Changes at certain places -/

/-- Every entry is as it was, or it is a file now at one of the places `files` where no directory
was, or a directory now at one of the places `dirs` where nothing was. -/
structure Confined (dirs files : Place → Prop) (fs fs' : FileSystem) : Prop where
  home : fs'.home = fs.home
  entries : ∀ q, fs'.entry? q = fs.entry? q ∨
    (files q ∧ fs.entry? q ≠ some .directory ∧ ∃ text, fs'.entry? q = some (.file text)) ∨
    (dirs q ∧ fs.entry? q = none ∧ fs'.entry? q = some .directory)

namespace Confined

theorem refl (fs : FileSystem) : Confined dirs files fs fs := ⟨rfl, fun _ => .inl rfl⟩

theorem trans (h : Confined dirs files fs fs') (h' : Confined dirs files fs' fs'') :
    Confined dirs files fs fs'' where
  home := h'.home.trans h.home
  entries q := by
    have hsecond := h'.entries q
    rcases h.entries q with hsame | ⟨hfile, hbefore, text, htext⟩ | ⟨hdir, hbefore, hnow⟩
    · rwa [hsame] at hsecond
    · -- A file stays a file.
      rcases hsecond with hsame | ⟨-, -, text', htext'⟩ | ⟨-, hnone, -⟩
      · exact .inr (.inl ⟨hfile, hbefore, text, hsame.trans htext⟩)
      · exact .inr (.inl ⟨hfile, hbefore, text', htext'⟩)
      · simp [htext] at hnone
    · -- A directory stays a directory.
      rcases hsecond with hsame | ⟨-, hno, -⟩ | ⟨-, hnone, -⟩
      · exact .inr (.inr ⟨hdir, hbefore, hsame.trans hnow⟩)
      · exact absurd hnow hno
      · simp [hnow] at hnone

end Confined

theorem home_put (fs : FileSystem) (place : Place) (e : Entry) :
    (fs.put place e).home = fs.home := by
  unfold put
  split <;> rfl

theorem confined_makeDir {place : Place} (hplace : dirs place) :
    Confined dirs files fs (fs.makeDir place) := by
  unfold makeDir
  split
  next h =>
    have hnone : fs.entry? place = none := Option.isNone_iff_eq_none.mp h
    have hno : fs.entry? place ≠ some .directory := by simp [hnone]
    refine ⟨home_put .., fun q => ?_⟩
    rw [entry?_put fs (ne_nil_of_no_directory hno)]
    split
    next hq => exact .inr (.inr ⟨hq ▸ hplace, hq ▸ hnone, rfl⟩)
    next => exact .inl rfl
  next => exact .refl fs

theorem confined_madeDirs {base : Place} {cs : List Component}
    (h : ∀ q ∈ Path.waypoints base cs, dirs q) :
    Confined dirs files fs (fs.madeDirs base cs) := by
  induction cs generalizing fs base with
  | nil => exact confined_makeDir (h base (Path.base_mem_waypoints base []))
  | cons c rest ih =>
    have hbase : Confined dirs files fs (fs.makeDir base) :=
      confined_makeDir (h base (Path.base_mem_waypoints base _))
    simp only [madeDirs]
    split
    next next _ hnext =>
      refine hbase.trans (ih fun q hq => h q ?_)
      rw [Path.waypoints, hnext]
      exact List.mem_cons_of_mem base hq
    next => exact hbase

theorem makeDir_of_none {place : Place} (h : fs.entry? place = none) :
    fs.makeDir place = fs.put place .directory := by
  rw [makeDir, h]
  rfl

theorem makeDir_of_some {place : Place} {e : Entry} (h : fs.entry? place = some e) :
    fs.makeDir place = fs := by
  rw [makeDir, h]
  rfl

theorem entry?_makeDir_of_none {base : Place} (h : fs.entry? base = none) :
    entry? (fs.makeDir base) base = some .directory := by
  have hno : fs.entry? base ≠ some .directory := by simp [h]
  rw [makeDir_of_none h, entry?_put fs (ne_nil_of_no_directory hno), if_pos rfl]

theorem makeDirs_makeDir (base : Place) (c : Component) (rest : List Component) :
    fs.makeDirs base (c :: rest) = (fs.makeDir base).makeDirs base (c :: rest) := by
  cases hentry : fs.entry? base with
  | none =>
    have hput := entry?_makeDir_of_none hentry
    rw [makeDir_of_none hentry] at hput ⊢
    simp only [makeDirs, hentry, hput]
  | some e => rw [makeDir_of_some hentry]

theorem makeDirs_cons {base : Place} (h : entry? (fs.makeDir base) base = some .directory)
    (c : Component) (rest : List Component) :
    fs.makeDirs base (c :: rest) =
      match c.from? base with
      | some next => (fs.makeDir base).makeDirs next rest
      | none => .error .denied :=
  (makeDirs_makeDir base c rest).trans (makeDirs_cons_of_directory h c rest)

theorem of_makeDirs_cons {base : Place} {c : Component} {rest : List Component}
    (h : fs.makeDirs base (c :: rest) = .ok fs') :
    entry? (fs.makeDir base) base = some .directory ∧
      ∃ next, c.from? base = some next ∧ (fs.makeDir base).makeDirs next rest = .ok fs' := by
  have hbase : entry? (fs.makeDir base) base = some .directory := by
    cases hentry : fs.entry? base with
    | none => exact entry?_makeDir_of_none hentry
    | some e =>
      rw [makeDir_of_some hentry]
      cases e with
      | directory => exact hentry
      | file text =>
        simp only [makeDirs, hentry] at h
        cases h
  rw [makeDirs_cons hbase] at h
  -- Once the base is a directory, only a way out of the working directory fails.
  cases hnext : c.from? base with
  | none =>
    rw [hnext] at h
    cases h
  | some next =>
    rw [hnext] at h
    exact ⟨hbase, next, rfl, h⟩

theorem madeDirs_of_makeDirs {base : Place} {cs : List Component}
    (h : fs.makeDirs base cs = .ok fs') : fs.madeDirs base cs = fs' := by
  induction cs generalizing fs base with
  | nil =>
    unfold makeDirs at h
    cases hentry : fs.entry? base with
    | none =>
      rw [hentry] at h
      rw [madeDirs, makeDir_of_none hentry]
      exact Except.ok.inj h
    | some e =>
      rw [hentry] at h
      rw [madeDirs, makeDir_of_some hentry]
      cases e with
      | directory => exact Except.ok.inj h
      | file text => cases h
  | cons c rest ih =>
    obtain ⟨hdirectory, next, hnext, hrest⟩ := of_makeDirs_cons h
    simp only [madeDirs, hdirectory, hnext]
    exact ih hrest

theorem confined_write {p : Path} {text : String} (h : fs.write p text = .ok fs') :
    Confined dirs (p.place? = some ·) fs fs' := by
  obtain ⟨place, hplace, h⟩ := Success.of_bind h
  obtain rfl := Except.ok.inj h
  obtain ⟨-, hwalk, -, hentry⟩ := of_placeToWrite hplace
  refine ⟨home_put .., fun q => ?_⟩
  rw [entry?_put fs (ne_nil_of_no_directory hentry)]
  split
  next hq => exact .inr (.inl ⟨hq ▸ locate_of_walk hwalk, hq ▸ hentry, text, rfl⟩)
  next => exact .inl rfl

theorem makeDirs_nil {base : Place} (h : entry? (fs.makeDir base) base = some .directory) :
    fs.makeDirs base [] = .ok (fs.makeDir base) := by
  cases hentry : fs.entry? base with
  | none => rw [makeDirs, hentry, makeDir_of_none hentry]
  | some e =>
    rw [makeDir_of_some hentry] at h ⊢
    rw [makeDirs, h]

theorem makeDirs_of_walk_madeDirs {base reached : Place} {c : Component} {rest : List Component}
    (h : (fs.madeDirs base (c :: rest).dropLast).walk base (c :: rest) = .ok reached) :
    fs.makeDirs base (c :: rest).dropLast = .ok (fs.madeDirs base (c :: rest).dropLast) := by
  induction rest generalizing fs base c with
  | nil => exact makeDirs_nil (entry?_of_walk h)
  | cons c' rest ih =>
    rw [List.dropLast_cons_of_ne_nil (by simp)] at h ⊢
    have hbase := entry?_of_walk h
    rw [walk_cons hbase] at h
    cases hnext : c.from? base with
    | none =>
      rw [hnext] at h
      cases h
    | some next =>
      rw [hnext] at h
      -- A file in the way would have ended the making of directories, and no walk passes it.
      cases hentry : entry? (fs.makeDir base) base with
      | none =>
        simp only [madeDirs, hentry] at hbase
        cases hbase
      | some e =>
        cases e with
        | file text =>
          simp only [madeDirs, hentry] at hbase
          cases hbase
        | directory =>
          simp only [madeDirs, hentry, hnext] at h ⊢
          rw [makeDirs_cons hentry, hnext]
          exact ih h

/-! ### Room for a file -/

/-- A file can be put at the path: no directory is there, and none on the way there is at the same
place. Nothing can be a file at `a/../a`, which needs `a` to be a directory. -/
def Vacant (fs : FileSystem) (p : Path) : Prop :=
  ∀ place, p.place? = some place → place ∉ p.directories ∧ fs.entry? place ≠ some .directory

theorem entry?_of_find {p : Path} {place : Place} {e : Entry} (h : fs.find p = .ok (place, e)) :
    fs.walk [] p.components = .ok place ∧ fs.entry? place = some e := by
  unfold find at h
  dsimp only at h
  split at h
  next => cases h
  next =>
    obtain ⟨reached, hwalk, h⟩ := Success.of_bind h
    split at h
    next text hentry =>
      split at h
      next => cases h
      next =>
        obtain ⟨rfl, rfl⟩ := Prod.mk.inj (Except.ok.inj h)
        exact ⟨hwalk, hentry⟩
    next hentry =>
      obtain ⟨rfl, rfl⟩ := Prod.mk.inj (Except.ok.inj h)
      exact ⟨hwalk, hentry⟩
    next => cases h

theorem makeDirs_of_read_madeDirs {p : Path} {text : String}
    (h : (fs.madeDirs [] p.components.dropLast).read p = .ok text) :
    fs.makeDirs [] p.components.dropLast = .ok (fs.madeDirs [] p.components.dropLast) := by
  obtain ⟨place, hfind⟩ := find_of_read h
  have hwalk := (entry?_of_find hfind).1
  cases hcs : p.components with
  | nil => rfl
  | cons c rest =>
    rw [hcs] at hwalk
    exact makeDirs_of_walk_madeDirs hwalk

theorem exists_of_isDirectory {p : Path} (h : fs.isDirectory p = true) :
    ∃ place, fs.find p = .ok (place, .directory) := by
  unfold isDirectory at h
  split at h
  next place hfind => exact ⟨place, hfind⟩
  next => cases h

theorem exists_read {p : Path} (hexists : fs.exists? p = true)
    (hplain : fs.isDirectory p = false) : ∃ text, fs.read p = .ok text := by
  cases hfind : fs.find p with
  | error e =>
    rw [exists?, hfind] at hexists
    cases hexists
  | ok found =>
    obtain ⟨place, e⟩ := found
    cases e with
    | file text => exact ⟨text, by rw [read, hfind]; rfl⟩
    | directory =>
      rw [isDirectory, hfind] at hplain
      cases hplain

end FileSystem

end CodeAudit
