import CodeAudit.Proofs.Validation.Exempt
import CodeAudit.Proofs.Validation.Names

/-!
Keys that are reported as unknown. Nobody reads them, so a configuration without such a key comes to
the same settings and the same rule sets. There are three ways for a key to be reported and read all
the same, and no other: the number of lines of a declared rule that does not declare it, a setting
whose scope a rule set has taken over, and a key every rule set or rule may have behind a name with
a line break.
-/

namespace CodeAudit

open Provider Schema

/-! ### Settings -/

theorem EngineSettings.ofConfig_congr {c c' : Config}
    (h : Config.AgreeOn engineKeys (c.sub scopeName) (c'.sub scopeName)) :
    ofConfig c = ofConfig c' := by
  have hfail : failOnOf (c.sub scopeName) = failOnOf (c'.sub scopeName) := by
    rw [failOnOf, h.value? _ (by decide) Reader.text_plain, h.keyPath, failOnOf]
  unfold ofConfig
  dsimp only
  rw [hfail, h.valueD (by decide) Reader.flag_plain, h.valueD (by decide) Reader.count_plain,
    h.valueD (by decide) Reader.flag_plain, h.valueD (by decide) Reader.flag_plain,
    h.valueD (by decide) Reader.count_plain]

theorem ValidationSettings.ofConfig_congr {c c' : Config}
    (h : Config.AgreeOn validationKeys (c.sub scopeName) (c'.sub scopeName)) :
    ofConfig c = ofConfig c' := by
  unfold ofConfig
  dsimp only
  rw [h.valueD (by decide) Reader.flag_plain, h.valueD (by decide) Reader.flag_plain,
    h.valueD (by decide) Reader.texts_plain]

namespace Registry

/-! ### What the schema expects -/

theorem get?_root_of_mem [PatternLanguage] {r : Registry} (hr : r.Stocked) {p : Provider}
    (hp : p ∈ r.providers) :
    r.schema.root.get? p.id = some (.scope (ruleSetScope p)) := by
  have hown : Scope.get? (r.providers.map fun p => (p.id, .scope (ruleSetScope p))) p.id =
      some (.scope (ruleSetScope p)) := by
    apply Scope.get?_of_nodup
    · simpa [Function.comp_def] using hr.nodup_ids
    · exact List.mem_map_of_mem hp
  rw [root_schema, Scope.get?_append, hown]
  rfl

theorem get?_root_of_not_mem {r : Registry} {name : String}
    (h : name ∉ r.providers.map (·.id)) :
    r.schema.root.get? name = Schema.base.root.get? name := by
  rw [root_schema, Scope.get?_append, Scope.get?_eq_none]
  · rfl
  · simpa [Function.comp_def] using h

/-- At the key of a rule the scope of a rule is expected, though it may be another one the key
stands for as well. -/
theorem rule_expected {p : Provider} {info : RuleInfo} (hinfo : info ∈ p.rules) {key : String}
    (hkey : Stands key info.id) :
    ∃ info' ∈ p.rules, Stands key info'.id ∧
      (ruleSetScope p).expected? key = some (.scope (ruleScope info')) := by
  have hmem : (info.id, Expectation.scope (ruleScope info)) ∈ ruleSetScope p :=
    List.mem_map_of_mem hinfo
  obtain ⟨e, he⟩ := Option.isSome_iff_exists.mp (Scope.isSome_expected? hmem hkey)
  obtain ⟨name, hname, hstands⟩ := Scope.exists_of_expected? he
  obtain ⟨info', hinfo', heq⟩ := List.mem_map.mp hname
  obtain ⟨rfl, rfl⟩ := Prod.mk.inj heq
  exact ⟨info', hinfo', hstands, he⟩

/-- A key path that is read although it can be reported as unknown. -/
inductive Overlooked (r : Registry) : List String → Prop
  | engineSetting {p : Provider} {key : String} (hp : p ∈ r.providers)
      (hid : p.id = EngineSettings.scopeName) (hkey : key ∈ engineKeys) :
      Overlooked r [EngineSettings.scopeName, key]
  | validationSetting {p : Provider} {key : String} (hp : p ∈ r.providers)
      (hid : p.id = ValidationSettings.scopeName) (hkey : key ∈ validationKeys) :
      Overlooked r [ValidationSettings.scopeName, key]
  | setKey {p : Provider} {key : String} (hp : p ∈ r.providers) (hkey : key ∈ setKeys)
      (hline : '\n' ∈ p.id.toList) : Overlooked r [p.id, key]
  | ruleKey {p : Provider} {info : RuleInfo} {rule key : String} (hp : p ∈ r.providers)
      (hinfo : info ∈ p.rules) (hrule : Stands rule info.id) (hkey : key ∈ ruleKeys)
      (hline : '\n' ∈ p.id.toList ∨ '\n' ∈ rule.toList) : Overlooked r [p.id, rule, key]
  | lines {p : Provider} {info : RuleInfo} {rule : String} (hp : p ∈ r.providers)
      (hbuiltin : p.builtin = false) (hinfo : info ∈ p.rules) (hrule : Stands rule info.id)
      (hundeclared : "max_lines" ∉ info.options.map (·.name)) :
      Overlooked r [p.id, rule, "max_lines"]

/-- A key path at which nothing is expected and that no pattern exempts. -/
structure Unexpected (r : Registry) (x : Exemptions) (path : List String) : Prop where
  nonempty : path ≠ []
  expected : r.schema.root.at? path = none
  exempt : x.admits path = false

theorem unexpected_of_problem {r : Registry} {x : Exemptions} {config : Config} {path : List String}
    (h : ⟨path, .unknown⟩ ∈ r.schema.problems x.admits config) : r.Unexpected x path := by
  obtain ⟨hexempt, e, v, ⟨entries, -, hreached⟩, hfault⟩ := mem_problems_iff.mp h
  obtain ⟨rfl, hne⟩ := hreached.expected_eq
  exact ⟨hne, fault?_eq_unknown_iff.mp hfault, hexempt⟩

theorem prefix_pair {path : List String} (hne : path ≠ []) {a b : String} (h : path <+: [a, b]) :
    path = [a] ∨ path = [a, b] := by
  have hcases : ∃ t, path = a :: t ∧ (t = [] ∨ t = [b]) := by
    simpa [List.prefix_cons_iff, hne] using h
  obtain ⟨t, rfl, rfl | rfl⟩ := hcases
  · exact .inl rfl
  · exact .inr rfl

theorem prefix_triple {path : List String} (hne : path ≠ []) {a b c : String}
    (h : path <+: [a, b, c]) : path = [a] ∨ path = [a, b] ∨ path = [a, b, c] := by
  have hcases : ∃ t, path = a :: t ∧ (t = [] ∨ ∃ t', t = b :: t' ∧ (t' = [] ∨ t' = [c])) := by
    simpa [List.prefix_cons_iff, hne] using h
  obtain ⟨t, rfl, rfl | ⟨t', rfl, rfl | rfl⟩⟩ := hcases
  · exact .inl rfl
  · exact .inr (.inl rfl)
  · exact .inr (.inr rfl)

section

variable {r : Registry} {x : Exemptions} {path : List String}

theorem Unexpected.ne_scope (h : r.Unexpected x path) {name : String} {e : Expectation}
    (hname : r.schema.root.get? name = some e) : path ≠ [name] := by
  rintro rfl
  have hexpected : r.schema.root.expected? name = none := h.expected
  rw [Scope.expected?_of_get? hname] at hexpected
  cases hexpected

theorem Unexpected.not_prefix_setting (h : r.Unexpected x path) {scope : String} {inner : Scope}
    (hbase : Schema.base.root.get? scope = some (.scope inner)) {key : String}
    (hkey : key ∈ inner.map (·.1)) (hfront : path <+: [scope, key]) :
    path = [scope, key] ∧ ∃ p ∈ r.providers, p.id = scope := by
  obtain ⟨e, he⟩ : ∃ e, r.schema.root.get? scope = some e := by
    apply Option.isSome_iff_exists.mp
    rw [root_schema, Scope.get?_append, hbase]
    simp
  have hpath : path = [scope, key] :=
    (prefix_pair h.nonempty hfront).resolve_left (h.ne_scope he)
  refine ⟨hpath, ?_⟩
  subst hpath
  -- Were the scope not taken over, the setting would be expected.
  by_contra hfree
  have hget : r.schema.root.get? scope = some (.scope inner) := by
    rw [get?_root_of_not_mem, hbase]
    rw [List.mem_map]
    exact hfree
  obtain ⟨⟨_, e'⟩, hentry, rfl⟩ := List.mem_map.mp hkey
  have hsome := Scope.isSome_expected? hentry (.refl _)
  have hnone := h.expected
  rw [Scope.at?_cons_cons (Scope.expected?_of_get? hget)] at hnone
  rw [show inner.expected? _ = none from hnone] at hsome
  cases hsome

/-- The keys that every rule set may have are unexpected only behind a line break. -/
theorem Unexpected.not_prefix_setKey [PatternLanguage] (hlang : Exemptions.ReadsDefaults)
    (hr : r.Stocked) {further : List String} (hx : Exemptions.ofPatterns further = .ok x)
    (h : r.Unexpected x path) {p : Provider} (hp : p ∈ r.providers) {key : String}
    (hkey : key ∈ setKeys) (hfront : path <+: [p.id, key]) : r.Overlooked path := by
  obtain rfl := (prefix_pair h.nonempty hfront).resolve_left (h.ne_scope (get?_root_of_mem hr hp))
  refine .setKey hp hkey ?_
  by_contra hline
  cases h.exempt.symm.trans (Exemptions.admits_setKey hlang hx hkey hline)

theorem Unexpected.added?_eq_none [PatternLanguage] (hr : r.Stocked) {p : Provider}
    (hp : p ∈ r.providers) {key : String} (h : r.Unexpected x [p.id, key]) : p.added? key = none := by
  have hnone := h.expected
  rw [Scope.at?_cons_cons (Scope.expected?_of_get? (get?_root_of_mem hr hp))] at hnone
  cases hadded : p.added? key with
  | none => rfl
  | some entry =>
    obtain ⟨info, hinfo, -⟩ := Option.map_eq_some_iff.mp hadded
    obtain ⟨base, hbase, hrule⟩ := Option.bind_eq_some_iff.mp hinfo
    have hid : info.id = base := by simpa using List.find?_some hrule
    obtain ⟨info', -, -, hexpected⟩ :=
      rule_expected (rule?_mem hrule) (.inr (hid ▸ hbase) : Stands key info.id)
    cases hexpected.symm.trans hnone

theorem rule_unique [PatternLanguage] {p : Provider} (hp : p.Known) (hbuiltin : p.builtin = true)
    {info info' : RuleInfo} (hinfo : info ∈ p.rules) (hinfo' : info' ∈ p.rules) {key : String}
    (hkey : Stands key info.id) (hkey' : Stands key info'.id) : info' = info := by
  have hplain : ∀ {i i' : RuleInfo}, i ∈ p.rules → key = i.id → customBase? key ≠ some i'.id := by
    rintro i i' hi rfl hbase
    exact hp.slashless_rules hbuiltin hi (slash_of_customBase? hbase)
  have hid : info'.id = info.id := by
    rcases hkey with hkey | hkey <;> rcases hkey' with hkey' | hkey'
    · rw [← hkey, ← hkey']
    · exact absurd hkey' (hplain hinfo hkey)
    · exact absurd hkey (hplain hinfo' hkey')
    · exact Option.some.inj (hkey'.symm.trans hkey)
  exact List.inj_on_of_nodup_map hp.nodup_rules hinfo' hinfo hid

theorem undeclared_of_unexpected {info : RuleInfo} {key : String}
    (h : (ruleScope info).expected? key = none) : key ∉ info.options.map (·.name) := by
  rw [List.mem_map]
  rintro ⟨o, ho, rfl⟩
  have hmem : (o.name, Expectation.ofDefault o.default) ∈ ruleScope info :=
    List.mem_map_of_mem ho
  have hsome := Scope.isSome_expected? hmem (.refl _)
  rw [h] at hsome
  cases hsome

/-- A declared rule has no other option than its number of lines. -/
theorem eq_max_lines_of_declared [PatternLanguage] {p : Provider} (hp : p.Known)
    (hbuiltin : p.builtin = false) {info : RuleInfo} (hinfo : info ∈ p.rules) {key : String}
    (hkey : key ∈ p.optionKeys info) : key = "max_lines" := by
  rcases List.mem_append.mp hkey with hdeclared | hread
  · obtain ⟨o, ho, rfl⟩ := List.mem_map.mp hdeclared
    exact hp.options_declared hbuiltin hinfo o ho
  · simpa [hbuiltin] using hread

/-- What a rule reads is unexpected only behind a line break, and for the number of lines of a
declared rule that does not declare it. -/
theorem Unexpected.not_prefix_ruleKey [PatternLanguage] (hlang : Exemptions.ReadsDefaults)
    (hr : r.Stocked) {further : List String} (hx : Exemptions.ofPatterns further = .ok x)
    (h : r.Unexpected x path) {p : Provider} (hp : p ∈ r.providers) {info : RuleInfo}
    (hinfo : info ∈ p.rules) {rule key : String}
    (hrule : Stands rule info.id) (hkey : key ∈ ruleKeys ++ p.optionKeys info)
    (hfront : path <+: [p.id, rule, key]) : r.Overlooked path := by
  have hset := Scope.expected?_of_get? (get?_root_of_mem hr hp)
  obtain ⟨info', hinfo', hrule', hexpected⟩ := rule_expected hinfo hrule
  obtain rfl | rfl | rfl := prefix_triple h.nonempty hfront
  · exact absurd rfl (h.ne_scope (get?_root_of_mem hr hp))
  · have hnone := h.expected
    rw [Scope.at?_cons_cons hset] at hnone
    cases hexpected.symm.trans hnone
  -- Only the whole path is left, and what it ends in is exempt or an option.
  rcases List.mem_append.mp hkey with hkey | hkey
  · refine .ruleKey hp hinfo hrule hkey ?_
    by_contra hline
    obtain ⟨hset, hrule⟩ := not_or.mp hline
    cases h.exempt.symm.trans (Exemptions.admits_ruleKey hlang hx hkey hset hrule)
  · have hnone : (ruleScope info').expected? key = none := by
      have hnone := h.expected
      rwa [Scope.at?_cons_cons hset, Scope.at?_cons_cons hexpected] at hnone
    have hundeclared := undeclared_of_unexpected hnone
    cases hbuiltin : p.builtin with
    | true =>
      -- Here `info'` cannot be another rule, so it has the option that is read.
      obtain rfl := rule_unique (hr.known p hp) hbuiltin hinfo hinfo' hrule hrule'
      have hdeclared : key ∈ info'.options.map (·.name) := by
        simpa [optionKeys, hbuiltin] using hkey
      exact absurd hdeclared hundeclared
    | false =>
      obtain rfl := eq_max_lines_of_declared (hr.known p hp) hbuiltin hinfo hkey
      exact .lines hp hbuiltin hinfo' hrule' hundeclared

end

/-! ### Deleting a key -/

theorem prefix_of_keys {keys : List Value} {path names : List String}
    (hkeys : keys.map Value.scalarText? = path.map some) (h : keys <+: names.map .string) :
    path <+: names := by
  have htake : keys = (names.take keys.length).map .string := by
    rw [List.map_take]
    exact List.prefix_iff_eq_take.mp h
  have hpath : path.map some = (names.take keys.length).map some := by
    rw [← hkeys]
    conv_lhs => rw [htake, List.map_map]
    rfl
  rw [List.map_injective_iff.mpr (fun _ _ => Option.some.inj) hpath]
  exact List.take_prefix _ _

theorem agreeOn_delete {config scope : Config} (names : List String)
    (hscope : scope.scope = config.scope ++ names) {keys : List Value} {path : List String}
    (hkeys : keys.map Value.scalarText? = path.map some) {read : List String}
    (h : ∀ key ∈ read, ¬ path <+: names ++ [key]) :
    Config.AgreeOn read scope (scope.cut (config.scope.map .string ++ keys)) := by
  refine Config.agreeOn_cut fun key hkey hfront => h key hkey ?_
  rw [hscope, List.append_assoc, List.map_append, List.prefix_append_right_inj] at hfront
  exact prefix_of_keys hkeys hfront

theorem agreeFor_delete [PatternLanguage] (hlang : Exemptions.ReadsDefaults) {r : Registry}
    (hr : r.Stocked) {further : List String} {x : Exemptions}
    (hx : Exemptions.ofPatterns further = .ok x) {path : List String} (h : r.Unexpected x path)
    (hover : ¬ r.Overlooked path) {keys : List Value}
    (hkeys : keys.map Value.scalarText? = path.map some) (config : Config) {p : Provider}
    (hp : p ∈ r.providers) : p.AgreeFor config (config.delete keys) := by
  refine ⟨?_, ?_, ?_⟩
  · refine agreeOn_delete [p.id] rfl hkeys fun key hkey hfront => ?_
    exact hover (h.not_prefix_setKey hlang hr hx hp hkey hfront)
  · apply Config.customKeys_cut
    · intro hfront
      rw [show (config.sub p.id).scope = config.scope ++ [p.id] from rfl, List.map_append,
        List.prefix_append_right_inj] at hfront
      have hpath : path <+: [p.id] := prefix_of_keys hkeys hfront
      have hsingle : path = [p.id] := by simpa [List.prefix_cons_iff, h.nonempty] using hpath
      exact h.ne_scope (get?_root_of_mem hr hp) hsingle
    · -- A key that is gone from the rule set itself adds no instance.
      intro k text hk htext
      have hkeys' : keys = [.string p.id, k] := by
        rw [show (config.sub p.id).scope = config.scope ++ [p.id] from rfl, List.map_append,
          List.append_assoc, List.append_cancel_left_eq] at hk
        exact hk
      have hpath : path = [p.id, text] := by
        rw [hkeys', List.map_cons, List.map_cons, htext] at hkeys
        have hmap : path.map some = [p.id, text].map some := hkeys.symm
        exact List.map_injective_iff.mpr (fun _ _ => Option.some.inj) hmap
      rw [hpath] at h
      exact h.added?_eq_none hr hp
  · intro info hinfo key hkey
    -- An instance stands under its own name or under that of its rule with a suffix.
    have hstands : Stands key info.id := by
      refine hkey.imp id fun hadded => ?_
      obtain ⟨base, hbase, hrule⟩ := Option.bind_eq_some_iff.mp hadded
      have hid : info.id = base := by simpa using List.find?_some hrule
      rw [hbase, hid]
    refine agreeOn_delete [p.id, key] (by simp [Config.sub]) hkeys fun name hname hfront => ?_
    exact hover (h.not_prefix_ruleKey hlang hr hx hp hinfo hstands hname hfront)

/-- A configuration without a key that is reported as unknown, and not overlooked, comes to the same
settings and the same rule sets, whichever are asked for. -/
theorem unknown_key_unread [PatternLanguage] (hlang : Exemptions.ReadsDefaults) {r : Registry}
    (hr : r.Stocked) (config : Config) (settings : ValidationSettings) {x : Exemptions}
    (hx : Exemptions.ofPatterns settings.excludes = .ok x) {path : List String}
    (h : ⟨path, .unknown⟩ ∈ r.schema.problems x.admits config) (hover : ¬ r.Overlooked path)
    {keys : List Value} (hkeys : keys.map Value.scalarText? = path.map some) :
    EngineSettings.ofConfig (config.delete keys) = EngineSettings.ofConfig config ∧
      ValidationSettings.ofConfig (config.delete keys) = ValidationSettings.ofConfig config ∧
      ∀ d restriction allRules,
        (r.build (config.delete keys) d restriction allRules).map (List.map (·.detached)) =
          (r.build config d restriction allRules).map (List.map (·.detached)) := by
  have hunexpected := unexpected_of_problem h
  refine ⟨?_, ?_, ?_⟩
  · refine (EngineSettings.ofConfig_congr ?_).symm
    refine agreeOn_delete [EngineSettings.scopeName] rfl hkeys fun key hkey hfront => hover ?_
    have hbase : Schema.base.root.get? EngineSettings.scopeName = some (.scope engineScope) := rfl
    obtain ⟨rfl, p, hp, hid⟩ := hunexpected.not_prefix_setting hbase hkey hfront
    exact .engineSetting hp hid hkey
  · refine (ValidationSettings.ofConfig_congr ?_).symm
    refine agreeOn_delete [ValidationSettings.scopeName] rfl hkeys fun key hkey hfront => hover ?_
    have hbase : Schema.base.root.get? ValidationSettings.scopeName =
      some (.scope validationScope) := rfl
    obtain ⟨rfl, p, hp, hid⟩ := hunexpected.not_prefix_setting hbase hkey hfront
    exact .validationSetting hp hid hkey
  · intro d restriction allRules
    refine (build_congr hr (fun p hp => ?_) d restriction allRules).symm
    exact agreeFor_delete hlang hr hx hunexpected hover hkeys config hp

theorem Overlooked.last_mem {r : Registry} {path : List String} (h : r.Overlooked path) :
    ∀ key ∈ path.getLast?, key ∈ engineKeys ++ validationKeys ++ ruleKeys ++ ["max_lines"] := by
  have hset : setKeys ⊆ ruleKeys := by decide
  cases h with
  | engineSetting _ _ hkey => simp [hkey]
  | validationSetting _ _ hkey => simp [hkey]
  | setKey _ hkey _ => simp [hset hkey]
  | ruleKey _ _ _ hkey _ => simp [hkey]
  | lines _ _ _ _ _ => simp

/-- A declared rule set whose rule gives no number of lines. -/
def lineless : DeclaredRuleSet where
  id := "plug"
  description := ""
  rules := [({ id := "R", description := "" }, { message := "m" })]

def linelessRegistry : Registry where
  providers := [lineless.provider]

theorem stocked_lineless : linelessRegistry.Stocked := by
  have hdeclared : DeclaredRuleSet.ofManifest
      { id := "plug", rules := [{ id := "R", message := "m" }] } ⟨"plug.json"⟩ = .ok lineless := rfl
  exact .register .empty (.declared hdeclared) rfl

/-- That rule with a number of lines of the wrong shape, and with a misspelled one. -/
def misshapen : Config :=
  { root := .mapping [(.string "plug", .mapping [(.string "R", .mapping [
      (.string "max_lines", .list [.number (.int 1)]),
      (.string "max_line", .list [.number (.int 1)])])])] }

theorem problems_misshapen {exempt : List String → Bool}
    (h : [["plug"], ["plug", "R"], ["plug", "R", "max_lines"], ["plug", "R", "max_line"]].any
      exempt = false) :
    linelessRegistry.schema.problems exempt misshapen =
      [⟨["plug", "R", "max_lines"], .unknown⟩, ⟨["plug", "R", "max_line"], .unknown⟩] := by
  have hset : linelessRegistry.schema.root.expected? "plug" =
      some (.scope [("R", .scope [])]) := rfl
  have hrule : Scope.expected? [("R", .scope [])] "R" = some (.scope []) := rfl
  have hnone : ∀ key ∈ ["max_lines", "max_line"], Scope.expected? [] key = none := by decide
  simp at h hnone
  simp [problems, misshapen, Config.node?, Value.at?, problemsIn, problemsAt, Value.scalarText?,
    hset, hrule, hnone, h]

/-- Both keys are reported as unknown. The misspelled one makes no difference, as it should; without
the other one the rule sets can be built, and with it they cannot. -/
theorem reported_lines_read :
    ∃ x, Exemptions.ofPatterns [] = .ok x ∧
      (∀ key ∈ ["max_lines", "max_line"], ⟨["plug", "R", key], .unknown⟩ ∈
        linelessRegistry.schema.problems x.admits misshapen) ∧
      (linelessRegistry.build
          (misshapen.delete [.string "plug", .string "R", .string "max_line"]) {} .all
          false).map (List.map (·.detached)) =
        (linelessRegistry.build misshapen {} .all false).map
          (List.map (·.detached)) ∧
      (linelessRegistry.build misshapen {} .all false).isOk = false ∧
      (linelessRegistry.build
        (misshapen.delete [.string "plug", .string "R", .string "max_lines"]) {} .all
        false).isOk = true := by
  have hadmits : (Exemptions.ofPatterns []).toOption.map (fun x => [["plug"], ["plug", "R"],
      ["plug", "R", "max_lines"], ["plug", "R", "max_line"]].any x.admits) = some false := by
    decide +kernel
  obtain ⟨x, hx, hadmits⟩ := Option.map_eq_some_iff.mp hadmits
  have hx := Success.of_toOption hx
  have hproblems := problems_misshapen hadmits
  refine ⟨x, hx, by simp [hproblems], ?_, rfl, rfl⟩
  have hreported : ⟨["plug", "R", "max_line"], .unknown⟩ ∈
      linelessRegistry.schema.problems x.admits misshapen := by
    simp [hproblems]
  have hover : ¬ linelessRegistry.Overlooked ["plug", "R", "max_line"] :=
    fun h => absurd (h.last_mem "max_line" rfl) (by decide)
  exact (unknown_key_unread Exemptions.readsDefaults_regex stocked_lineless misshapen {} hx
    hreported hover rfl).2.2 {} .all false

end Registry

end CodeAudit
