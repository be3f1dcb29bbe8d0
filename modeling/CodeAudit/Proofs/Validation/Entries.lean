import CodeAudit.Proofs.Validation.Exempt
import CodeAudit.Proofs.Validation.Walk
import CodeAudit.Registry
import Mathlib.Data.List.Forall2

namespace CodeAudit

namespace Schema

/-! ### More exemptions -/

section

variable {exempt exempt' : List String → Bool}

mutual

theorem problemsIn_sublist (hmore : ∀ path, exempt path → exempt' path) (scope : Scope)
    (path : List String) (entries : List (Value × Value)) :
    (problemsIn exempt' scope path entries).Sublist (problemsIn exempt scope path entries) := by
  match entries with
  | [] => exact .refl _
  | (k, v) :: rest =>
    rw [problemsIn, problemsIn]
    refine List.Sublist.append ?_ (problemsIn_sublist hmore scope path rest)
    cases k.scalarText? with
    | none => exact .refl _
    | some key =>
      dsimp only
      by_cases h : exempt (path ++ [key])
      · rw [if_pos h, if_pos (hmore _ h)]
      · rw [if_neg h]
        split
        · exact List.nil_sublist _
        · exact problemsAt_sublist hmore _ (path ++ [key]) v
termination_by structural entries

theorem problemsAt_sublist (hmore : ∀ path, exempt path → exempt' path)
    (expected : Option Expectation) (path : List String) (v : Value) :
    (problemsAt exempt' expected path v).Sublist (problemsAt exempt expected path v) := by
  match v with
  | .mapping es =>
    match expected with
    | some (.scope inner) => exact problemsIn_sublist hmore inner path es
    | none | some .value | some .list => exact .refl _
  | .null | .bool _ | .number _ | .string _ | .list _ | .tagged _ _ =>
    match expected with
    | none | some .value | some .list | some (.scope _) => exact .refl _
termination_by structural v

end

end

theorem problems_sublist {exempt exempt' : List String → Bool}
    (hmore : ∀ path, exempt path → exempt' path) (s : Schema) (config : Config) :
    (s.problems exempt' config).Sublist (s.problems exempt config) := by
  unfold problems
  split
  · exact problemsIn_sublist hmore _ _ _
  · exact .refl _

/-! ### Positions -/

/-- The entry at a position, which has an index for each mapping on the way. The texts of the keys
down to it and its value are given with it. -/
inductive EntryAt : List (Value × Value) → List Nat → List String → Value → Prop
  | here {entries : List (Value × Value)} {i : Nat} {k v : Value} {key : String}
      (h : entries[i]? = some (k, v)) (hkey : k.scalarText? = some key) :
      EntryAt entries [i] [key] v
  | inside {entries es : List (Value × Value)} {i : Nat} {position : List Nat} {k v : Value}
      {key : String} {keys : List String} (h : entries[i]? = some (k, .mapping es))
      (hkey : k.scalarText? = some key) (hrest : EntryAt es position keys v) :
      EntryAt entries (i :: position) (key :: keys) v

/-- The entry at a position is at fault, and neither it nor an entry around it is exempt. -/
def FaultAt (exempt : List String → Bool) (scope : Scope) (path : List String)
    (entries : List (Value × Value)) (position : List Nat) (problem : Problem) : Prop :=
  ∃ keys v, EntryAt entries position keys v ∧ problem.path = path ++ keys ∧
    fault? (scope.at? keys) v = some problem.fault ∧
    ∀ around keys' v', around <+: position → EntryAt entries around keys' v' →
      exempt (path ++ keys') = false

/-- Neither of two positions is the other, and neither entry is inside the other. -/
def Aside (a b : List Nat) : Prop := ¬ a <+: b ∧ ¬ b <+: a

theorem aside_cons_iff {a b : List Nat} {i : Nat} : Aside (i :: a) (i :: b) ↔ Aside a b := by
  simp [Aside, List.cons_prefix_cons]

theorem aside_of_ne {i j : Nat} (h : i ≠ j) (a b : List Nat) : Aside (i :: a) (j :: b) := by
  simp [Aside, List.cons_prefix_cons, h, h.symm]

theorem EntryAt.exists_cons {entries : List (Value × Value)} {position : List Nat}
    {keys : List String} {v : Value} (h : EntryAt entries position keys v) :
    (∃ i rest, position = i :: rest) ∧ ∃ key keys', keys = key :: keys' := by
  cases h with
  | here h hkey => exact ⟨⟨_, _, rfl⟩, _, _, rfl⟩
  | inside h hkey hrest => exact ⟨⟨_, _, rfl⟩, _, _, rfl⟩

theorem entryAt_succ_iff {entry : Value × Value} {entries : List (Value × Value)} {i : Nat}
    {rest : List Nat} {keys : List String} {v : Value} :
    EntryAt (entry :: entries) ((i + 1) :: rest) keys v ↔ EntryAt entries (i :: rest) keys v := by
  constructor
  · intro h
    cases h with
    | here h hkey => exact .here h hkey
    | inside h hkey hrest => exact .inside h hkey hrest
  · intro h
    cases h with
    | here h hkey => exact .here h hkey
    | inside h hkey hrest => exact .inside h hkey hrest

section

variable {exempt : List String → Bool} {scope : Scope} {path : List String} {problem : Problem}

theorem FaultAt.exists_cons {entries : List (Value × Value)} {position : List Nat}
    (h : FaultAt exempt scope path entries position problem) :
    ∃ i rest, position = i :: rest := by
  obtain ⟨keys, v, hentry, -⟩ := h
  exact hentry.exists_cons.1

theorem FaultAt.behind {entries : List (Value × Value)} {i : Nat} {rest : List Nat}
    (h : FaultAt exempt scope path entries (i :: rest) problem) (entry : Value × Value) :
    FaultAt exempt scope path (entry :: entries) ((i + 1) :: rest) problem := by
  obtain ⟨keys, v, hentry, hpath, hfault, haround⟩ := h
  refine ⟨keys, v, entryAt_succ_iff.mpr hentry, hpath, hfault, fun around keys' v' hpre hat => ?_⟩
  obtain ⟨⟨j, rest', rfl⟩, -⟩ := hat.exists_cons
  obtain ⟨rfl, hrest⟩ := List.cons_prefix_cons.mp hpre
  exact haround _ keys' v' (List.cons_prefix_cons.mpr ⟨rfl, hrest⟩) (entryAt_succ_iff.mp hat)

theorem faultAt_head {k v : Value} {key : String} (rest : List (Value × Value))
    (hkey : k.scalarText? = some key) (hexempt : exempt (path ++ [key]) = false)
    (hpath : problem.path = path ++ [key])
    (hfault : fault? (scope.expected? key) v = some problem.fault) :
    FaultAt exempt scope path ((k, v) :: rest) [0] problem := by
  refine ⟨[key], v, .here rfl hkey, hpath, hfault, fun around keys' v' hpre hat => ?_⟩
  cases hat with
  | here h hkey' =>
    obtain ⟨rfl, -⟩ := List.cons_prefix_cons.mp hpre
    obtain ⟨rfl, rfl⟩ := Prod.mk.inj (Option.some.inj h)
    rwa [Option.some.inj (hkey'.symm.trans hkey)]
  | inside h hkey' hrest =>
    obtain ⟨⟨i, rest, rfl⟩, -⟩ := hrest.exists_cons
    simp [List.cons_prefix_cons] at hpre

theorem FaultAt.inside {inner : Scope} {k : Value} {key : String} {es : List (Value × Value)}
    {position : List Nat} (h : FaultAt exempt inner (path ++ [key]) es position problem)
    (rest : List (Value × Value)) (hkey : k.scalarText? = some key)
    (hexempt : exempt (path ++ [key]) = false)
    (hscope : scope.expected? key = some (.scope inner)) :
    FaultAt exempt scope path ((k, .mapping es) :: rest) (0 :: position) problem := by
  obtain ⟨keys, v, hentry, hpath, hfault, haround⟩ := h
  obtain ⟨-, next, keys', rfl⟩ := hentry.exists_cons
  refine ⟨key :: next :: keys', v, .inside rfl hkey hentry, by rw [hpath]; simp, ?_, ?_⟩
  · rwa [Scope.at?_cons_cons hscope]
  · intro around keys v hpre hat
    cases hat with
    | here h hkey' =>
      obtain ⟨rfl, -⟩ := List.cons_prefix_cons.mp hpre
      obtain ⟨rfl, rfl⟩ := Prod.mk.inj (Option.some.inj h)
      rwa [Option.some.inj (hkey'.symm.trans hkey)]
    | inside h hkey' hrest =>
      obtain ⟨rfl, hinside⟩ := List.cons_prefix_cons.mp hpre
      obtain ⟨rfl, heq⟩ := Prod.mk.inj (Option.some.inj h)
      obtain rfl := Value.mapping.inj heq
      have hbelow := haround _ _ _ hinside hrest
      rwa [List.append_assoc, ← Option.some.inj (hkey'.symm.trans hkey)] at hbelow

end

/-- Each problem has a position of its own, none of them around another. -/
def Spread (at? : List Nat → Problem → Prop) (problems : List Problem) : Prop :=
  ∃ positions, List.Forall₂ at? positions problems ∧ positions.Pairwise Aside

theorem Spread.mono {at? at?' : List Nat → Problem → Prop}
    (h : ∀ position problem, at? position problem → at?' position problem)
    {problems : List Problem} (hspread : Spread at? problems) : Spread at?' problems := by
  obtain ⟨positions, hat, haside⟩ := hspread
  exact ⟨positions, hat.imp h, haside⟩

theorem Spread.nil (at? : List Nat → Problem → Prop) : Spread at? [] := ⟨[], .nil, .nil⟩

/-- The position of the same entry when one is put in front. -/
def nextPosition : List Nat → List Nat
  | [] => []
  | i :: rest => (i + 1) :: rest

section

variable {exempt : List String → Bool} {scope : Scope} {path : List String}

theorem Spread.append {entry : Value × Value} {entries : List (Value × Value)}
    {first others : List Problem}
    (hfirst : Spread (fun position => FaultAt exempt scope path (entry :: entries) (0 :: position))
      first)
    (hothers : Spread (FaultAt exempt scope path entries) others) :
    Spread (FaultAt exempt scope path (entry :: entries)) (first ++ others) := by
  obtain ⟨ps, hps, hpsAside⟩ := hfirst
  obtain ⟨qs, hqs, hqsAside⟩ := hothers
  have hfaults := hqs.imp fun _ _ h => And.intro h.exists_cons h
  have hcons := ((List.forall₂_and_left _ _).mp hfaults).1
  -- Positions in the first entry begin with a zero, all others move up by one.
  refine ⟨ps.map (0 :: ·) ++ qs.map nextPosition, ?_, ?_⟩
  · refine List.rel_append (List.forall₂_map_left_iff.mpr hps) (List.forall₂_map_left_iff.mpr ?_)
    refine hfaults.imp ?_
    rintro q problem ⟨⟨i, rest, rfl⟩, hfault⟩
    exact hfault.behind entry
  · refine List.pairwise_append.mpr ⟨?_, ?_, ?_⟩
    · exact List.pairwise_map.mpr (hpsAside.imp aside_cons_iff.mpr)
    · refine List.pairwise_map.mpr (hqsAside.imp_of_mem fun {a b} ha hb haside => ?_)
      obtain ⟨i, a, rfl⟩ := hcons a ha
      obtain ⟨j, b, rfl⟩ := hcons b hb
      by_cases hij : i = j
      · subst hij
        exact aside_cons_iff.mpr (aside_cons_iff.mp haside)
      · exact aside_of_ne (by omega) a b
    · intro a ha b hb
      obtain ⟨a, -, rfl⟩ := List.mem_map.mp ha
      obtain ⟨q, hq, rfl⟩ := List.mem_map.mp hb
      obtain ⟨i, b, rfl⟩ := hcons q hq
      exact aside_of_ne (by omega) a b

/-- An entry that the walk does not go into has at most its own fault. -/
theorem spread_own {k v : Value} (rest : List (Value × Value)) {key : String}
    (hkey : k.scalarText? = some key) (hexempt : exempt (path ++ [key]) = false)
    (h : ∀ inner es, scope.expected? key = some (.scope inner) → v ≠ .mapping es) :
    Spread (fun position => FaultAt exempt scope path ((k, v) :: rest) (0 :: position))
      (problemsAt exempt (scope.expected? key) (path ++ [key]) v) := by
  rw [problemsAt_of_not_entered h]
  cases hfault : fault? (scope.expected? key) v with
  | none => exact .nil _
  | some fault =>
    exact ⟨[[]], .cons (faultAt_head rest hkey hexempt rfl hfault) .nil,
      List.pairwise_singleton _ _⟩

mutual

theorem spread_problemsIn (exempt : List String → Bool) (scope : Scope) (path : List String)
    (entries : List (Value × Value)) :
    Spread (FaultAt exempt scope path entries) (problemsIn exempt scope path entries) := by
  match entries with
  | [] => exact .nil _
  | (k, v) :: rest =>
    rw [problemsIn]
    refine Spread.append ?_ (spread_problemsIn exempt scope path rest)
    cases hkey : k.scalarText? with
    | none => exact .nil _
    | some key =>
      dsimp only
      split
      · exact .nil _
      next hexempt =>
        exact spread_problemsAt exempt scope path k v rest hkey (Bool.eq_false_iff.mpr hexempt)
termination_by structural entries

theorem spread_problemsAt (exempt : List String → Bool) (scope : Scope) (path : List String)
    (k v : Value) (rest : List (Value × Value)) {key : String} (hkey : k.scalarText? = some key)
    (hexempt : exempt (path ++ [key]) = false) :
    Spread (fun position => FaultAt exempt scope path ((k, v) :: rest) (0 :: position))
      (problemsAt exempt (scope.expected? key) (path ++ [key]) v) := by
  match v with
  | .mapping es =>
    match hscope : scope.expected? key with
    | some (.scope inner) =>
      rw [problemsAt]
      exact (spread_problemsIn exempt inner (path ++ [key]) es).mono fun _ _ hfault =>
        hfault.inside rest hkey hexempt hscope
    | none | some .value | some .list =>
      rw [← hscope]
      exact spread_own rest hkey hexempt (by simp [hscope])
  | .null | .bool _ | .number _ | .string _ | .list _ | .tagged _ _ =>
    exact spread_own rest hkey hexempt (by simp)
termination_by structural v

end

end

/-! ### Notifications -/

/-- A notification is about the entry at a position, which is at fault, and it names the whole path
of keys to the entry. No pattern matches the path of the entry or of an entry around it. -/
def ReportedAt [PatternLanguage] (s : Schema) (config : Config) (settings : ValidationSettings)
    (position : List Nat) (note : Notification) : Prop :=
  ∃ entries keys v fault, config.node? = some (.mapping entries) ∧
    EntryAt entries position keys v ∧ fault? (s.root.at? keys) v = some fault ∧
    (note = if settings.warningsAsErrors then
        { (Problem.mk keys fault).notification with level := .error }
      else (Problem.mk keys fault).notification) ∧
    ∀ around keys' v', around <+: position → EntryAt entries around keys' v' →
      ¬ Exemptions.Covered settings.excludes keys'

theorem spread_problems (s : Schema) (exempt : List String → Bool) (config : Config) :
    Spread (fun position problem => ∃ entries, config.node? = some (.mapping entries) ∧
      FaultAt exempt s.root [] entries position problem) (s.problems exempt config) := by
  unfold problems
  split
  next entries hnode =>
    exact (spread_problemsIn exempt s.root [] entries).mono fun _ _ h => ⟨entries, hnode, h⟩
  next => exact .nil _

theorem exists_positions [PatternLanguage] {s : Schema} {config : Config}
    {settings : ValidationSettings} {notes : List Notification}
    (h : s.validate config settings = .ok notes) :
    ∃ positions, List.Forall₂ (s.ReportedAt config settings) positions notes ∧
      positions.Pairwise Aside := by
  cases hvalidation : settings.validation with
  | false =>
    rw [validate_of_off hvalidation] at h
    obtain rfl := Except.ok.inj h
    exact ⟨[], .nil, .nil⟩
  | true =>
    cases hx : Exemptions.ofPatterns settings.excludes with
    | error e =>
      rw [validate_of_malformed hvalidation hx] at h
      cases h
    | ok x =>
      rw [validate_eq hvalidation hx] at h
      obtain rfl := Except.ok.inj h
      obtain ⟨positions, hat, haside⟩ := spread_problems s x.admits config
      refine ⟨positions, List.forall₂_map_right_iff.mpr (hat.imp ?_), haside⟩
      rintro position problem ⟨entries, hnode, keys, v, hentry, hpath, hfault, haround⟩
      refine ⟨entries, keys, v, problem.fault, hnode, hentry, hfault, ?_, ?_⟩
      · obtain rfl : problem.path = keys := hpath
        rfl
      · intro around keys' v' hpre hat hcovered
        have hexempt := haround around keys' v' hpre hat
        rw [List.nil_append, (Exemptions.admits_iff_covered hx).mpr hcovered] at hexempt
        cases hexempt

/-- Further exemptions silence notifications and add none. No entry is reported twice, below one
that is reported or below one that is exempt, and a notification names its entry. -/
theorem further_excludes_silence [PatternLanguage]
    (hdefaults : ∀ pattern ∈ Exemptions.defaultPatterns, Exemptions.Compiles pattern)
    (s : Schema) (config : Config) (settings : ValidationSettings) (further : List String)
    (hfurther : ∀ pattern ∈ further, Exemptions.Compiles pattern) :
    (∃ e, s.validate config settings = .error e ∧
      s.validate config { settings with excludes := settings.excludes ++ further } = .error e ∧
      ∃ pattern ∈ settings.excludes, ¬ Exemptions.Compiles pattern) ∨
    ∃ notes fewer, s.validate config settings = .ok notes ∧
      s.validate config { settings with excludes := settings.excludes ++ further } = .ok fewer ∧
      fewer.Sublist notes ∧
      ∃ positions, List.Forall₂ (s.ReportedAt config settings) positions notes ∧
        positions.Pairwise Aside := by
  rcases Bool.eq_false_or_eq_true settings.validation with hvalidation | hvalidation
  · cases hx : Exemptions.ofPatterns settings.excludes with
    | error e =>
      exact .inl ⟨e, validate_of_malformed hvalidation hx,
        validate_of_malformed hvalidation (Exemptions.ofPatterns_append_of_error hx further),
        Exemptions.exists_malformed hdefaults hx⟩
    | ok x =>
      obtain ⟨x', hx'⟩ := Exemptions.exists_ofPatterns_append hx hfurther
      -- More patterns exempt more, and nothing else has changed.
      have hmore : ∀ path, x.admits path = true → x'.admits path = true := fun path hadmits =>
        (Exemptions.admits_iff_covered hx').mpr
          (((Exemptions.admits_iff_covered hx).mp hadmits).append further)
      have hsublist := problems_sublist hmore s config
      obtain ⟨notes, hnotes⟩ : ∃ notes, s.validate config settings = .ok notes :=
        ⟨_, validate_eq hvalidation hx⟩
      refine .inr ⟨notes, _, hnotes, validate_eq hvalidation hx', ?_, exists_positions hnotes⟩
      rw [validate_eq hvalidation hx] at hnotes
      exact Except.ok.inj hnotes ▸ hsublist.map _
  · exact .inr ⟨[], [], validate_of_off hvalidation, validate_of_off hvalidation, .refl _, [], .nil,
      .nil⟩

/-- The scope of another program, and a misspelled rule. -/
def shared : Config :=
  { root := .mapping [(.string "my_tool", .mapping [(.string "anything", .number (.int 1))]),
      (.string "style", .mapping [(.string "ClassName", .null)])] }

theorem foreign_scope_silenced :
    Exemptions.Compiles "my_tool(>.*)?" ∧
    ∃ notes fewer, Registry.builtin.schema.validate shared {} = .ok notes ∧
      Registry.builtin.schema.validate shared { excludes := ["my_tool(>.*)?"] } = .ok fewer ∧
      fewer.Sublist notes ∧
      notes.map (·.message) = ["Property 'my_tool' is misspelled or does not exist.",
        "Property 'style>ClassName' is misspelled or does not exist."] ∧
      fewer.length = 1 ∧
      ∃ positions, List.Forall₂ (Registry.builtin.schema.ReportedAt shared {}) positions notes ∧
        positions.Pairwise Aside := by
  have hcompiles : Exemptions.Compiles "my_tool(>.*)?" :=
    Exemptions.compiles_of_isSome (by decide +kernel)
  have hnotes : ((Registry.builtin.schema.validate shared {}).toOption.map
      (List.map (·.message))) = some ["Property 'my_tool' is misspelled or does not exist.",
        "Property 'style>ClassName' is misspelled or does not exist."] := by
    decide +kernel
  have hfewer : ((Registry.builtin.schema.validate shared
      { excludes := ["my_tool(>.*)?"] }).toOption.map List.length) = some 1 := by
    decide +kernel
  obtain ⟨e, -, -, pattern, hpattern, -⟩ | ⟨notes, fewer, h, h', hsublist, hpositions⟩ :=
    further_excludes_silence Exemptions.readsDefaults_regex.compiles Registry.builtin.schema shared
      {} ["my_tool(>.*)?"] (List.forall_mem_singleton.mpr hcompiles)
  · cases hpattern
  · rw [h] at hnotes
    change Registry.builtin.schema.validate shared { excludes := ["my_tool(>.*)?"] } = _ at h'
    rw [h'] at hfewer
    exact ⟨hcompiles, notes, fewer, h, h', hsublist, Option.some.inj hnotes, Option.some.inj hfewer,
      hpositions⟩

end Schema

end CodeAudit
