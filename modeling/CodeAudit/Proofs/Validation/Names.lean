import CodeAudit.Proofs.Success
import CodeAudit.Proofs.Validation.Walk
import CodeAudit.Registry
import CodeAudit.Regex.Language
import Mathlib.Data.List.Forall2

namespace CodeAudit

namespace Schema

def validationKeys : List String := ["validation", "warnings_as_errors", "excludes"]

/-- The scope of a rule set: its rules, each with its options. -/
def ruleSetScope (p : Provider) : Scope := p.rules.map fun info => (info.id, .scope (ruleScope info))

end Schema

namespace Registry

open Schema

/-! ### The key paths that mean something -/

/-- A key path that names a scope, a setting, a rule or instance, or an option that a rule
declares. -/
inductive Names (r : Registry) : List String → Prop
  | engine : Names r [EngineSettings.scopeName]
  | validation : Names r [ValidationSettings.scopeName]
  | ruleSet {p : Provider} (hp : p ∈ r.providers) : Names r [p.id]
  | engineSetting {key : String} (h : key ∈ engineKeys) : Names r [EngineSettings.scopeName, key]
  | validationSetting {key : String} (h : key ∈ validationKeys) :
      Names r [ValidationSettings.scopeName, key]
  | rule {p : Provider} {info : RuleInfo} {key : String} (hp : p ∈ r.providers)
      (hinfo : info ∈ p.rules) (hkey : Stands key info.id) : Names r [p.id, key]
  | option {p : Provider} {info : RuleInfo} {key : String} {o : RuleOption} (hp : p ∈ r.providers)
      (hinfo : info ∈ p.rules) (hkey : Stands key info.id) (ho : o ∈ info.options) :
      Names r [p.id, key, o.name]

/-- A key path with a suffix where no rule belongs, which passes for one without it. -/
inductive Misread (r : Registry) : List String → Prop
  | scope {key name : String} {rest names : List String}
      (hkey : Provider.customBase? key = some name) (hrest : List.Forall₂ Stands rest names)
      (h : r.Names (name :: names)) : Misread r (key :: rest)
  | engineSetting {key name : String} (hkey : Provider.customBase? key = some name)
      (h : name ∈ engineKeys) : Misread r [EngineSettings.scopeName, key]
  | validationSetting {key name : String} (hkey : Provider.customBase? key = some name)
      (h : name ∈ validationKeys) : Misread r [ValidationSettings.scopeName, key]
  | option {ruleSet rule key name : String} (hkey : Provider.customBase? key = some name)
      (h : r.Names [ruleSet, rule, name]) : Misread r [ruleSet, rule, key]

/-! ### The schema of a registry -/

theorem root_foldl_addRuleSet (ps : List Provider) (s : Schema) :
    (ps.foldl (fun s p => s.addRuleSet p.id p.rules) s).root =
      s.root ++ ps.map fun p => (p.id, .scope (ruleSetScope p)) := by
  induction ps generalizing s with
  | nil => simp
  | cons p ps ih =>
    rw [List.foldl_cons, ih, addRuleSet, List.map_cons, List.append_assoc]
    rfl

theorem root_schema (r : Registry) :
    r.schema.root =
      Schema.base.root ++ r.providers.map fun p => (p.id, .scope (ruleSetScope p)) :=
  root_foldl_addRuleSet r.providers Schema.base

theorem mem_root_schema {r : Registry} {name : String} {e : Expectation}
    (h : (name, e) ∈ r.schema.root) :
    (name = EngineSettings.scopeName ∧ e = .scope engineScope) ∨
      (name = ValidationSettings.scopeName ∧ e = .scope validationScope) ∨
      ∃ p ∈ r.providers, name = p.id ∧ e = .scope (ruleSetScope p) := by
  rw [root_schema, List.mem_append] at h
  rcases h with h | h
  · simp only [Schema.base, List.mem_cons, List.not_mem_nil, or_false, Prod.mk.injEq] at h
    rcases h with h | h
    · exact .inl h
    · exact .inr (.inl h)
  · obtain ⟨p, hp, heq⟩ := List.mem_map.mp h
    obtain ⟨rfl, rfl⟩ := Prod.mk.inj heq
    exact .inr (.inr ⟨p, hp, rfl, rfl⟩)

/-! ### Paths below a scope -/

theorem settings_of_at? {s : Scope} (hs : ∀ e ∈ s, ∀ inner, e.2 ≠ .scope inner)
    {rest : List String} {e : Expectation} (hne : rest ≠ []) (h : s.at? rest = some e) :
    ∃ key name, rest = [key] ∧ Stands key name ∧ name ∈ s.map (·.1) := by
  match rest with
  | [] => exact absurd rfl hne
  | [key] =>
    obtain ⟨name, hmem, hname⟩ := Scope.exists_of_expected? h
    exact ⟨key, name, rfl, hname, List.mem_map_of_mem hmem⟩
  | key :: next :: rest =>
    obtain ⟨inner, hinner, -⟩ := Scope.exists_of_at? h
    obtain ⟨name, hmem, -⟩ := Scope.exists_of_expected? hinner
    exact absurd rfl (hs _ hmem inner)

theorem rule_of_at? {p : Provider} {rest : List String} {e : Expectation} (hne : rest ≠ [])
    (h : (ruleSetScope p).at? rest = some e) :
    ∃ info ∈ p.rules, ∃ key, Stands key info.id ∧
      (rest = [key] ∨ ∃ o ∈ info.options, ∃ last, rest = [key, last] ∧ Stands last o.name) := by
  have hrule : ∀ {key : String} {e : Expectation}, (ruleSetScope p).expected? key = some e →
      ∃ info ∈ p.rules, Stands key info.id ∧ e = .scope (ruleScope info) := by
    intro key e hkey
    obtain ⟨name, hmem, hname⟩ := Scope.exists_of_expected? hkey
    obtain ⟨info, hinfo, heq⟩ := List.mem_map.mp hmem
    obtain ⟨rfl, rfl⟩ := Prod.mk.inj heq
    exact ⟨info, hinfo, hname, rfl⟩
  have hoption : ∀ {info : RuleInfo} {key : String} {e : Expectation},
      (ruleScope info).expected? key = some e →
      ∃ o ∈ info.options, Stands key o.name ∧ e = .ofDefault o.default := by
    intro info key e hkey
    obtain ⟨name, hmem, hname⟩ := Scope.exists_of_expected? hkey
    obtain ⟨o, ho, heq⟩ := List.mem_map.mp hmem
    obtain ⟨rfl, rfl⟩ := Prod.mk.inj heq
    exact ⟨o, ho, hname, rfl⟩
  match rest with
  | [] => exact absurd rfl hne
  | [key] =>
    obtain ⟨info, hinfo, hkey, -⟩ := hrule h
    exact ⟨info, hinfo, key, hkey, .inl rfl⟩
  | [key, last] =>
    obtain ⟨inner, hinner, hlast⟩ := Scope.exists_of_at? h
    obtain ⟨info, hinfo, hkey, heq⟩ := hrule hinner
    obtain rfl := Expectation.scope.inj heq
    obtain ⟨o, ho, hlast, -⟩ := hoption hlast
    exact ⟨info, hinfo, key, hkey, .inr ⟨o, ho, last, rfl, hlast⟩⟩
  | key :: last :: next :: rest =>
    -- An option that is a scope of its own expects nothing below it.
    obtain ⟨inner, hinner, hlast⟩ := Scope.exists_of_at? h
    obtain ⟨info, -, -, heq⟩ := hrule hinner
    obtain rfl := Expectation.scope.inj heq
    obtain ⟨inner, hinner, hnext⟩ := Scope.exists_of_at? hlast
    obtain ⟨o, -, -, hdefault⟩ := hoption hinner
    have hempty : inner = [] := by
      cases hvalue : o.default with
      | mapping es =>
        rw [hvalue] at hdefault
        exact Expectation.scope.inj hdefault
      | _ => simp [hvalue, Expectation.ofDefault] at hdefault
    rw [hempty] at hnext
    exact absurd hnext (Scope.at?_empty next rest e)

theorem named_or_misread_below {r : Registry} {name : String} {inner : Scope}
    (hname : (name, .scope inner) ∈ r.schema.root) {rest : List String} {e : Expectation}
    (hne : rest ≠ []) (h : inner.at? rest = some e) :
    (r.Names (name :: rest) ∨ r.Misread (name :: rest)) ∧
      ∃ names, List.Forall₂ Stands rest names ∧ r.Names (name :: names) := by
  -- A scope at the root is that of the settings, of the validation, or of a rule set.
  obtain ⟨rfl, heq⟩ | ⟨rfl, heq⟩ | ⟨p, hp, rfl, heq⟩ := mem_root_schema hname
  · obtain rfl := Expectation.scope.inj heq
    obtain ⟨key, name, rfl, hkey, hmem⟩ := settings_of_at? (by simp [engineScope]) hne h
    have hsetting : name ∈ engineKeys := by simpa [engineScope] using hmem
    refine ⟨?_, [name], .cons hkey .nil, .engineSetting hsetting⟩
    rcases hkey with rfl | hkey
    · exact .inl (.engineSetting hsetting)
    · exact .inr (.engineSetting hkey hsetting)
  · obtain rfl := Expectation.scope.inj heq
    obtain ⟨key, name, rfl, hkey, hmem⟩ := settings_of_at? (by simp [validationScope]) hne h
    have hsetting : name ∈ validationKeys := hmem
    refine ⟨?_, [name], .cons hkey .nil, .validationSetting hsetting⟩
    rcases hkey with rfl | hkey
    · exact .inl (.validationSetting hsetting)
    · exact .inr (.validationSetting hkey hsetting)
  · obtain rfl := Expectation.scope.inj heq
    obtain ⟨info, hinfo, key, hkey, rfl | ⟨o, ho, last, rfl, hlast⟩⟩ := rule_of_at? hne h
    · have hnames := Names.rule hp hinfo hkey
      exact ⟨.inl hnames, [key], .cons (.refl key) .nil, hnames⟩
    · have hnames := Names.option hp hinfo hkey ho
      refine ⟨?_, [key, o.name], .cons (.refl key) (.cons hlast .nil), hnames⟩
      rcases hlast with rfl | hlast
      · exact .inl hnames
      · exact .inr (.option hlast hnames)

theorem named_or_misread_of_at? {r : Registry} {p : List String} {e : Expectation} (hne : p ≠ [])
    (h : r.schema.root.at? p = some e) : r.Names p ∨ r.Misread p := by
  match p with
  | [] => exact absurd rfl hne
  | [key] =>
    obtain ⟨name, hmem, hkey⟩ := Scope.exists_of_expected? h
    have hnames : r.Names [name] := by
      obtain ⟨rfl, -⟩ | ⟨rfl, -⟩ | ⟨p, hp, rfl, -⟩ := mem_root_schema hmem
      · exact .engine
      · exact .validation
      · exact .ruleSet hp
    rcases hkey with rfl | hkey
    · exact .inl hnames
    · exact .inr (.scope hkey .nil hnames)
  | key :: next :: rest =>
    obtain ⟨inner, hinner, hrest⟩ := Scope.exists_of_at? h
    obtain ⟨name, hmem, hkey⟩ := Scope.exists_of_expected? hinner
    obtain ⟨hbelow, names, hstands, hnames⟩ := named_or_misread_below hmem (by simp) hrest
    rcases hkey with rfl | hkey
    · exact hbelow
    · exact .inr (.scope hkey hstands hnames)

/-- With validation on, the notifications are those of the problems, and a key path that the walk
comes to, that no pattern exempts and that is not among the problems is named or misread. -/
theorem silent_path_named_or_misread [PatternLanguage] (r : Registry) (config : Config)
    (settings : ValidationSettings) (hvalidation : settings.validation = true) {x : Exemptions}
    (hx : Exemptions.ofPatterns settings.excludes = .ok x) :
    r.schema.validate config settings = .ok ((r.schema.problems x.admits config).map fun problem =>
        if settings.warningsAsErrors then { problem.notification with level := .error }
        else problem.notification) ∧
      ∀ p e v, r.schema.Visits x.admits config p e v → x.admits p = false →
        (∀ fault, ⟨p, fault⟩ ∉ r.schema.problems x.admits config) → r.Names p ∨ r.Misread p := by
  refine ⟨validate_eq hvalidation hx, ?_⟩
  intro p e v hvisits hadmits hsilent
  have ⟨_, _, hreached⟩ := hvisits
  obtain ⟨hexpected, hne⟩ := hreached.expected_eq
  cases e with
  | none => exact absurd (mem_problems_iff.mpr ⟨hadmits, none, v, hvisits, rfl⟩) (hsilent .unknown)
  | some e => exact named_or_misread_of_at? hne hexpected.symm

theorem scope_of_names {r : Registry} {key : String} (h : r.Names [key]) :
    key ∈ [EngineSettings.scopeName, ValidationSettings.scopeName] ++ r.providers.map (·.id) := by
  cases h with
  | engine => simp
  | validation => simp
  | ruleSet hp => exact List.mem_append_right _ (List.mem_map_of_mem hp)

/-- A rule of a rule set under a suffixed name. -/
def strictComplexity : Config :=
  { root := .mapping [(.string "complexity/strict", .mapping [(.string "LongMethod",
      .mapping [(.string "threshold", .number (.int 5))])])] }

theorem problems_strictComplexity (exempt : List String → Bool) :
    Registry.builtin.schema.problems exempt strictComplexity = [] := by
  have hset : Registry.builtin.schema.root.expected? "complexity/strict" =
      some (.scope (ruleSetScope Builtin.complexity)) := rfl
  have hrule : Scope.expected? (ruleSetScope Builtin.complexity) "LongMethod" =
      some (.scope [("threshold", .value)]) := rfl
  have hoption : Scope.expected? [("threshold", .value)] "threshold" = some .value := rfl
  simp [problems, strictComplexity, Config.node?, Value.at?, problemsIn, problemsAt,
    Value.scalarText?, hset, hrule, hoption]

/-- No rule set reads `complexity/strict`, and it passes without a word. -/
theorem suffixed_rule_set_unnoticed :
    ∃ x, Exemptions.ofPatterns [] = .ok x ∧ x.admits ["complexity/strict"] = false ∧
      (∀ fault, ⟨["complexity/strict"], fault⟩ ∉
        Registry.builtin.schema.problems x.admits strictComplexity) ∧
      Registry.builtin.Misread ["complexity/strict"] ∧
      ¬ Registry.builtin.Names ["complexity/strict"] := by
  have hadmits : (Exemptions.ofPatterns []).toOption.map (·.admits ["complexity/strict"]) =
      some false := by decide +kernel
  obtain ⟨x, hx, hadmits⟩ := Option.map_eq_some_iff.mp hadmits
  have hx := Success.of_toOption hx
  have hsilent : ∀ fault, ⟨["complexity/strict"], fault⟩ ∉
      Registry.builtin.schema.problems x.admits strictComplexity := by
    rw [problems_strictComplexity]
    exact fun _ => List.not_mem_nil
  have hunnamed : ¬ Registry.builtin.Names ["complexity/strict"] := by
    intro h
    have hscope : "complexity/strict" ∈ ["engine", "config"] ++ Builtin.providers.map (·.id) :=
      scope_of_names h
    exact absurd hscope (by decide)
  refine ⟨x, hx, hadmits, hsilent, ?_, hunnamed⟩
  have hvisits : Registry.builtin.schema.Visits x.admits strictComplexity ["complexity/strict"] _ _ :=
    ⟨_, rfl, .here List.mem_cons_self rfl⟩
  have hnamed := (silent_path_named_or_misread Registry.builtin strictComplexity {} rfl hx).2
  exact (hnamed _ _ _ hvisits hadmits hsilent).resolve_left hunnamed

end Registry

end CodeAudit
