import CodeAudit.Validation.Problem
import Mathlib.Data.List.Nodup

namespace CodeAudit

namespace Schema

/-- What is wrong with an entry itself. -/
def fault? (expected : Option Expectation) (v : Value) : Option Fault :=
  match expected with
  | none => some .unknown
  | some (.scope _) =>
    match v with
    | .mapping _ | .null => none
    | _ => some .scopeExpected
  | some .list =>
    match v with
    | .mapping _ => some .scopeUnexpected
    | .string _ => some .textForList
    | _ => none
  | some .value =>
    match v with
    | .mapping _ => some .scopeUnexpected
    | _ => none

/-- An entry is unknown exactly where nothing is expected. -/
theorem fault?_eq_unknown_iff {expected : Option Expectation} {v : Value} :
    fault? expected v = some .unknown ↔ expected = none := by
  rcases expected with _ | _ | _ | inner
  · simp [fault?]
  · cases v <;> simp [fault?]
  · cases v <;> simp [fault?]
  · cases v <;> simp [fault?]

/-- The walk through the entries of a scope, which is itself at `path`, comes to the entry at `rel`
below it. What is expected there and the value are given with it. -/
inductive Reached (exempt : List String → Bool) :
    Scope → List String → List (Value × Value) → List String → Option Expectation → Value → Prop
  | here {scope : Scope} {path : List String} {entries : List (Value × Value)} {k v : Value}
      {key : String} (h : (k, v) ∈ entries) (hkey : k.scalarText? = some key) :
      Reached exempt scope path entries [key] (scope.expected? key) v
  | inside {scope inner : Scope} {path rel : List String} {entries es : List (Value × Value)}
      {k v : Value} {key : String} {e : Option Expectation} (h : (k, .mapping es) ∈ entries)
      (hkey : k.scalarText? = some key) (hexempt : exempt (path ++ [key]) = false)
      (hscope : scope.expected? key = some (.scope inner))
      (hrel : Reached exempt inner (path ++ [key]) es rel e v) :
      Reached exempt scope path entries (key :: rel) e v

/-- An entry that is reached is at fault and not exempt. -/
def Faulty (exempt : List String → Bool) (scope : Scope) (path : List String)
    (entries : List (Value × Value)) (problem : Problem) : Prop :=
  ∃ rel e v, Reached exempt scope path entries rel e v ∧ problem.path = path ++ rel ∧
    exempt problem.path = false ∧ fault? e v = some problem.fault

section

variable {exempt : List String → Bool} {scope : Scope} {path : List String} {problem : Problem}

theorem Reached.mono {entries entries' : List (Value × Value)} (hsub : entries ⊆ entries')
    {rel : List String} {e : Option Expectation} {v : Value}
    (h : Reached exempt scope path entries rel e v) :
    Reached exempt scope path entries' rel e v := by
  cases h with
  | here h hkey => exact .here (hsub h) hkey
  | inside h hkey hexempt hscope hrel => exact .inside (hsub h) hkey hexempt hscope hrel

theorem Reached.exists_mem {entries : List (Value × Value)} {rel : List String}
    {e : Option Expectation} {v : Value} (h : Reached exempt scope path entries rel e v) :
    ∃ entry ∈ entries, Reached exempt scope path [entry] rel e v := by
  cases h with
  | here h hkey => exact ⟨_, h, .here List.mem_cons_self hkey⟩
  | inside h hkey hexempt hscope hrel =>
    exact ⟨_, h, .inside List.mem_cons_self hkey hexempt hscope hrel⟩

theorem faulty_iff_exists_mem {entries : List (Value × Value)} :
    Faulty exempt scope path entries problem ↔
      ∃ entry ∈ entries, Faulty exempt scope path [entry] problem := by
  constructor
  · rintro ⟨rel, e, v, hreached, hrest⟩
    obtain ⟨entry, hentry, hreached⟩ := hreached.exists_mem
    exact ⟨entry, hentry, rel, e, v, hreached, hrest⟩
  · rintro ⟨entry, hentry, rel, e, v, hreached, hrest⟩
    exact ⟨rel, e, v, hreached.mono (by simpa using hentry), hrest⟩

theorem faulty_singleton_iff {k v : Value} {key : String} (hkey : k.scalarText? = some key) :
    Faulty exempt scope path [(k, v)] problem ↔ exempt (path ++ [key]) = false ∧
      ((problem.path = path ++ [key] ∧ fault? (scope.expected? key) v = some problem.fault) ∨
        ∃ inner es, scope.expected? key = some (.scope inner) ∧ v = .mapping es ∧
          Faulty exempt inner (path ++ [key]) es problem) := by
  constructor
  · rintro ⟨rel, e, w, hreached, hpath, hexempt, hfault⟩
    cases hreached with
    | here h hkey' =>
      obtain ⟨rfl, rfl⟩ : _ = k ∧ w = v := by simpa using h
      obtain rfl := Option.some.inj (hkey.symm.trans hkey')
      exact ⟨hpath ▸ hexempt, .inl ⟨hpath, hfault⟩⟩
    | inside h hkey' hentered hscope hrel =>
      obtain ⟨rfl, rfl⟩ : _ = k ∧ _ = v := by simpa using h
      obtain rfl := Option.some.inj (hkey.symm.trans hkey')
      refine ⟨hentered, .inr ⟨_, _, hscope, rfl, _, e, w, hrel, ?_, hexempt, hfault⟩⟩
      rw [hpath, List.append_assoc]
      rfl
  · rintro ⟨hentered, ⟨hpath, hfault⟩ |
      ⟨inner, es, hscope, rfl, rel, e, w, hrel, hpath, hexempt, hfault⟩⟩
    · exact ⟨[key], _, v, .here List.mem_cons_self hkey, hpath, hpath ▸ hentered, hfault⟩
    · refine ⟨key :: rel, e, w, .inside List.mem_cons_self hkey hentered hscope hrel, ?_, hexempt,
        hfault⟩
      rw [hpath, List.append_assoc]
      rfl

theorem not_faulty_of_no_text {k v : Value} (hkey : k.scalarText? = none) :
    ¬ Faulty exempt scope path [(k, v)] problem := by
  rintro ⟨rel, e, w, hreached, -⟩
  cases hreached with
  | here h hkey' =>
    obtain ⟨rfl, rfl⟩ : _ = k ∧ w = v := by simpa using h
    cases hkey.symm.trans hkey'
  | inside h hkey' _ _ _ =>
    obtain ⟨rfl, rfl⟩ : _ = k ∧ _ = v := by simpa using h
    cases hkey.symm.trans hkey'

/-- Where the walk does not go on, an entry has its own fault and no other. -/
theorem problemsAt_of_not_entered {expected : Option Expectation} {v : Value}
    (h : ∀ inner es, expected = some (.scope inner) → v ≠ .mapping es) :
    problemsAt exempt expected path v = ((fault? expected v).map (Problem.mk path)).toList := by
  rcases expected with _ | _ | _ | inner
  · cases v <;> rfl
  · cases v <;> rfl
  · cases v <;> rfl
  · cases v with
    | mapping es => exact absurd rfl (h inner es rfl)
    | _ => rfl

theorem mem_problemsAt_of_not_entered {expected : Option Expectation} {v : Value}
    (h : ∀ inner es, expected = some (.scope inner) → v ≠ .mapping es) :
    problem ∈ problemsAt exempt expected path v ↔
      problem.path = path ∧ fault? expected v = some problem.fault := by
  obtain ⟨p, fault⟩ := problem
  rw [problemsAt_of_not_entered h]
  cases hfault : fault? expected v with
  | none => simp
  | some f =>
    simp only [Option.map_some, Option.toList_some, List.mem_singleton, Problem.mk.injEq,
      Option.some.injEq]
    exact and_congr_right fun _ => eq_comm

end

mutual

theorem mem_problemsIn_iff (exempt : List String → Bool) (scope : Scope) (path : List String)
    (entries : List (Value × Value)) (problem : Problem) :
    problem ∈ problemsIn exempt scope path entries ↔
      Faulty exempt scope path entries problem := by
  match entries with
  | [] =>
    rw [problemsIn, faulty_iff_exists_mem]
    simp
  | (k, v) :: rest =>
    have hsplit : Faulty exempt scope path ((k, v) :: rest) problem ↔
        Faulty exempt scope path [(k, v)] problem ∨ Faulty exempt scope path rest problem := by
      rw [faulty_iff_exists_mem, List.exists_mem_cons_iff, ← faulty_iff_exists_mem]
    -- Both sides split at the first entry, and the walk into it is the other half of the mutual
    -- recursion.
    rw [problemsIn, List.mem_append, mem_problemsIn_iff exempt scope path rest, hsplit]
    refine or_congr_left ?_
    cases hkey : k.scalarText? with
    | none => simpa using not_faulty_of_no_text hkey
    | some key =>
      rw [faulty_singleton_iff hkey]
      dsimp only
      cases hexempt : exempt (path ++ [key]) with
      | true => simp
      | false =>
        rw [if_neg (by simp), mem_problemsAt_iff exempt _ (path ++ [key]) v]
        simp
termination_by structural entries

theorem mem_problemsAt_iff (exempt : List String → Bool) (expected : Option Expectation)
    (path : List String) (v : Value) (problem : Problem) :
    problem ∈ problemsAt exempt expected path v ↔
      (problem.path = path ∧ fault? expected v = some problem.fault) ∨
        ∃ inner es, expected = some (.scope inner) ∧ v = .mapping es ∧
          Faulty exempt inner path es problem := by
  match v with
  | .mapping es =>
    match expected with
    | some (.scope inner) =>
      rw [problemsAt, mem_problemsIn_iff exempt inner path es]
      simp [fault?]
    | none | some .value | some .list =>
      rw [mem_problemsAt_of_not_entered (by simp)]
      simp
  | .null | .bool _ | .number _ | .string _ | .list _ | .tagged _ _ =>
    rw [mem_problemsAt_of_not_entered (by simp)]
    simp
termination_by structural v

end

/-- The walk through a configuration comes to an entry. -/
def Visits (s : Schema) (exempt : List String → Bool) (config : Config) (path : List String)
    (e : Option Expectation) (v : Value) : Prop :=
  ∃ entries, config.node? = some (.mapping entries) ∧ Reached exempt s.root [] entries path e v

theorem mem_problems_iff {s : Schema} {exempt : List String → Bool} {config : Config}
    {problem : Problem} :
    problem ∈ s.problems exempt config ↔
      exempt problem.path = false ∧ ∃ e v, s.Visits exempt config problem.path e v ∧
        fault? e v = some problem.fault := by
  unfold problems Visits
  split
  next entries hnode =>
    rw [mem_problemsIn_iff]
    constructor
    · rintro ⟨rel, e, v, hreached, hpath, hexempt, hfault⟩
      obtain rfl : problem.path = rel := hpath
      exact ⟨hexempt, e, v, ⟨entries, hnode, hreached⟩, hfault⟩
    · rintro ⟨hexempt, e, v, ⟨entries', hnode', hreached⟩, hfault⟩
      obtain rfl : entries = entries' := by simpa using hnode.symm.trans hnode'
      exact ⟨_, e, v, hreached, rfl, hexempt, hfault⟩
  next hnode =>
    simp only [List.not_mem_nil, false_iff]
    rintro ⟨-, e, v, ⟨entries, hentries, -⟩, -⟩
    exact hnode entries hentries

section

variable [PatternLanguage]

theorem validate_of_off {s : Schema} {config : Config} {settings : ValidationSettings}
    (hvalidation : settings.validation = false) : s.validate config settings = .ok [] := by
  unfold validate
  rw [hvalidation]
  rfl

theorem validate_of_malformed {s : Schema} {config : Config} {settings : ValidationSettings}
    {e : ConfigError} (hvalidation : settings.validation = true)
    (he : Exemptions.ofPatterns settings.excludes = .error e) :
    s.validate config settings = .error e := by
  unfold validate
  rw [hvalidation, he]
  rfl

theorem validate_eq {s : Schema} {config : Config} {settings : ValidationSettings} {x : Exemptions}
    (hvalidation : settings.validation = true)
    (hx : Exemptions.ofPatterns settings.excludes = .ok x) :
    s.validate config settings = .ok ((s.problems x.admits config).map fun problem =>
      if settings.warningsAsErrors then { problem.notification with level := .error }
      else problem.notification) := by
  unfold validate
  simp only [hvalidation, hx]
  cases settings.warningsAsErrors with
  | false => rfl
  | true =>
    change Except.ok _ = _
    simp [Function.comp_def]

end

end Schema

/-! ### What is expected at a path -/

/-- A key that is a name, or has it in front of a slash. -/
def Stands (key name : String) : Prop :=
  key = name ∨ Provider.customBase? key = some name

theorem Stands.refl (key : String) : Stands key key := .inl rfl

namespace Scope

theorem mem_of_get? {s : Scope} {name : String} {e : Expectation} (h : s.get? name = some e) :
    (name, e) ∈ s := by
  obtain ⟨⟨name', e'⟩, hlast, rfl⟩ := Option.map_eq_some_iff.mp h
  obtain ⟨hmem, hname'⟩ := List.mem_filter.mp (List.mem_of_getLast? hlast)
  obtain rfl : name' = name := by simpa using hname'
  exact hmem

theorem exists_of_expected? {s : Scope} {key : String} {e : Expectation}
    (h : s.expected? key = some e) :
    ∃ name, (name, e) ∈ s ∧ Stands key name := by
  rcases Option.or_eq_some_iff.mp h with hown | ⟨-, hbase⟩
  · exact ⟨key, mem_of_get? hown, .inl rfl⟩
  · obtain ⟨name, hname, hbase⟩ := Option.bind_eq_some_iff.mp hbase
    exact ⟨name, mem_of_get? hbase, .inr hname⟩

theorem isSome_get? {s : Scope} {name : String} {e : Expectation} (h : (name, e) ∈ s) :
    (s.get? name).isSome = true := by
  have hmem : (name, e) ∈ s.filter fun e => e.1 == name := by simp [h]
  rw [get?, Option.isSome_map, List.getLast?_isSome]
  exact List.ne_nil_of_mem hmem

theorem isSome_expected? {s : Scope} {key name : String} {e : Expectation} (h : (name, e) ∈ s)
    (hkey : Stands key name) : (s.expected? key).isSome = true := by
  unfold expected?
  rw [Option.isSome_or, Bool.or_eq_true]
  rcases hkey with rfl | hkey
  · exact .inl (isSome_get? h)
  · rw [hkey]
    exact .inr (isSome_get? h)

theorem get?_of_nodup {s : Scope} (hs : (s.map (·.1)).Nodup) {name : String} {e : Expectation}
    (h : (name, e) ∈ s) : s.get? name = some e := by
  obtain ⟨e', he'⟩ := Option.isSome_iff_exists.mp (isSome_get? h)
  have hsame := List.inj_on_of_nodup_map hs (mem_of_get? he') h rfl
  rw [he', (Prod.mk.inj hsame).2]

theorem get?_append (s t : Scope) (name : String) :
    get? (s ++ t) name = (get? t name).or (get? s name) := by
  unfold get?
  rw [List.filter_append, List.getLast?_append]
  cases (t.filter fun e => e.1 == name).getLast? <;> rfl

theorem get?_eq_none {s : Scope} {name : String} (h : name ∉ s.map (·.1)) :
    s.get? name = none := by
  cases hget : s.get? name with
  | none => rfl
  | some e => exact absurd (List.mem_map_of_mem (mem_of_get? hget)) h

theorem expected?_of_get? {s : Scope} {key : String} {e : Expectation} (h : s.get? key = some e) :
    s.expected? key = some e := by
  rw [expected?, h]
  rfl

/-- What is expected at a path below a scope. -/
def at? (s : Scope) : List String → Option Expectation
  | [] => some (.scope s)
  | [key] => s.expected? key
  | key :: rest =>
    match s.expected? key with
    | some (.scope inner) => at? inner rest
    | _ => none

theorem at?_cons_cons {s inner : Scope} {key : String}
    (h : s.expected? key = some (.scope inner)) (next : String) (rest : List String) :
    s.at? (key :: next :: rest) = inner.at? (next :: rest) := by
  conv_lhs => rw [at?.eq_3 _ _ _ (by simp), h]

theorem exists_of_at? {s : Scope} {key next : String} {rest : List String} {e : Expectation}
    (h : s.at? (key :: next :: rest) = some e) :
    ∃ inner : Scope, s.expected? key = some (.scope inner) ∧ inner.at? (next :: rest) = some e := by
  rw [at?.eq_3 _ _ _ (by simp)] at h
  split at h
  next inner hinner => exact ⟨inner, hinner, h⟩
  next => cases h

theorem at?_empty (key : String) (rest : List String) (e : Expectation) :
    at? [] (key :: rest) ≠ some e := by
  intro h
  cases rest with
  | nil =>
    obtain ⟨name, hmem, -⟩ := exists_of_expected? h
    cases hmem
  | cons next rest =>
    obtain ⟨inner, hinner, -⟩ := exists_of_at? h
    obtain ⟨name, hmem, -⟩ := exists_of_expected? hinner
    cases hmem

end Scope

theorem Schema.Reached.expected_eq {exempt : List String → Bool} {scope : Scope}
    {path rel : List String} {entries : List (Value × Value)} {e : Option Expectation} {v : Value}
    (h : Reached exempt scope path entries rel e v) : e = scope.at? rel ∧ rel ≠ [] := by
  induction h with
  | here _ _ => exact ⟨rfl, by simp⟩
  | @inside scope _ _ rel _ _ _ _ key _ _ _ _ hscope _ ih =>
    refine ⟨?_, by simp⟩
    obtain ⟨key', rest, rfl⟩ := List.exists_cons_of_ne_nil ih.2
    rw [ih.1, Scope.at?_cons_cons hscope]

end CodeAudit
