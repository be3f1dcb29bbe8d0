import CodeAudit.Proofs.Provider.Keys
import CodeAudit.Proofs.Registry.Stock
import CodeAudit.Proofs.Value.Without

namespace CodeAudit

/-- Two configurations that are seen from one scope and read alike under the given keys. -/
structure Config.AgreeOn (keys : List String) (c c' : Config) : Prop where
  scope : c.scope = c'.scope
  value? : ∀ key ∈ keys, ∀ {α : Type} {r : Reader α}, r.Plain → c.value? r key = c'.value? r key

/-- The instance apart from the configuration it carries along. -/
def RuleInstance.detached (i : RuleInstance) : RuleInstance := { i with config := .empty }

/-- The rule set apart from the configuration its instances carry along. -/
def RuleSet.detached (s : RuleSet) : RuleSet := { s with rules := s.rules.map (·.detached) }

namespace Config.AgreeOn

variable {keys : List String} {c c' : Config}

theorem valueD (h : AgreeOn keys c c') {key : String} (hkey : key ∈ keys) {α : Type} {r : Reader α}
    (hr : r.Plain) (default : α) : c.valueD r key default = c'.valueD r key default := by
  rw [Config.valueD, h.value? key hkey hr, Config.valueD]

theorem map_valueD (h : AgreeOn keys c c') {key : String} (hkey : key ∈ keys) {α β : Type}
    {r : Reader α} (hr : r.Plain) (default : α) (f : α → β) :
    (c.valueD r key default).map f = (c'.valueD r key default).map f := by
  rw [h.valueD hkey hr]

theorem keyPath (h : AgreeOn keys c c') (key : String) : c.keyPath key = c'.keyPath key := by
  rw [Config.keyPath, h.scope, Config.keyPath]

theorem mono {keys' : List String} (h : AgreeOn keys c c') (hsub : keys' ⊆ keys) :
    AgreeOn keys' c c' :=
  ⟨h.scope, fun key hkey => h.value? key (hsub hkey)⟩

end Config.AgreeOn

namespace Provider

/-- The keys that every rule set reads in its scope. -/
def setKeys : List String := ["active", "includes", "excludes"]

/-- The keys that every rule reads in its scope. -/
def ruleKeys : List String :=
  ["active", "severity", "aliases", "includes", "excludes", "ignore_annotated", "ignore_function"]

/-- The keys that a rule reads beyond these: the options it declares, and in a declared rule set the
number of lines, declared or not. -/
def optionKeys (p : Provider) (info : RuleInfo) : List String :=
  info.options.map (·.name) ++ if p.builtin then [] else ["max_lines"]

/-! ### One rule -/

section

variable {keys : List String} {c c' : Config} (h : Config.AgreeOn keys c c')

include h

theorem activationOf_congr (hactive : "active" ∈ keys) (info : RuleInfo)
    (setActive allRules : Bool) :
    activationOf info c setActive allRules = activationOf info c' setActive allRules := by
  rw [activationOf, h.value? _ hactive Reader.flag_plain, activationOf]

theorem severityOf_congr (hseverity : "severity" ∈ keys) (info : RuleInfo) :
    severityOf info c = severityOf info c' := by
  rw [severityOf, h.value? _ hseverity Reader.text_plain, h.keyPath, severityOf]

theorem filter_congr (hincludes : "includes" ∈ keys) (hexcludes : "excludes" ∈ keys) :
    PathFilter.ofConfig c = PathFilter.ofConfig c' := by
  have hunder : ∀ key patterns, PathFilter.globsUnder c key patterns =
      PathFilter.globsUnder c' key patterns := by
    intro key patterns
    rw [PathFilter.globsUnder.eq_def, h.keyPath, PathFilter.globsUnder.eq_def]
  rw [PathFilter.ofConfig, h.value? _ hincludes Reader.texts_plain,
    h.value? _ hexcludes Reader.texts_plain, PathFilter.ofConfig]
  simp only [hunder]

theorem resolver_congr (hmarked : "ignore_annotated" ∈ keys) (hfunctions : "ignore_function" ∈ keys)
    (d : Descriptor) : Resolver.ofRule d c = Resolver.ofRule d c' := by
  rw [Resolver.ofRule, h.valueD hmarked Reader.texts_plain, h.valueD hfunctions Reader.texts_plain,
    Resolver.ofRule]

end

theorem namingOf_congr [PatternLanguage] {keys : List String} {c c' : Config}
    (h : Config.AgreeOn keys c c') (hpattern : "pattern" ∈ keys) (kinds : List NodeKind) (label default : String) :
    Builtin.namingOf kinds label default c = Builtin.namingOf kinds label default c' := by
  rw [Builtin.namingOf, h.valueD hpattern Reader.text_plain, h.keyPath, Builtin.namingOf]

theorem createRule_builtin_congr [PatternLanguage] {p : Provider} (hp : p ∈ Builtin.providers)
    {info : RuleInfo} (hinfo : info ∈ p.rules) {c c' : Config} (h : Config.AgreeOn (p.optionKeys info) c c') :
    p.createRule info.id c = p.createRule info.id c' := by
  simp only [Builtin.providers, List.mem_cons, List.not_mem_nil, or_false] at hp
  rcases hp with rfl | rfl | rfl
  · simp only [Builtin.complexity, Builtin.complexityRules, List.mem_cons, List.not_mem_nil,
      or_false] at hinfo
    rcases hinfo with rfl | rfl | rfl
    · exact h.map_valueD (show "threshold" ∈ _ by decide) Reader.count_plain _ _
    · exact h.map_valueD (show "threshold" ∈ _ by decide) Reader.count_plain _ _
    · exact h.map_valueD (show "function_threshold" ∈ _ by decide) Reader.count_plain _ _
  · simp only [Builtin.style, Builtin.styleRules, List.mem_cons, List.not_mem_nil, or_false]
      at hinfo
    rcases hinfo with rfl | rfl
    · exact namingOf_congr h (by simp [Provider.optionKeys]) _ _ _
    · exact namingOf_congr h (by simp [Provider.optionKeys]) _ _ _
  · simp only [Builtin.guardProvider, Builtin.guardRules, List.mem_cons, List.not_mem_nil, or_false]
      at hinfo
    subst hinfo
    exact h.map_valueD (show "rules" ∈ _ by decide) Reader.texts_plain _ _

/-- Creating a rule reads its options and nothing else. -/
theorem Known.createRule_congr [PatternLanguage] {p : Provider} (hp : p.Known) {info : RuleInfo}
    (hinfo : info ∈ p.rules) {c c' : Config} (h : Config.AgreeOn (p.optionKeys info) c c') :
    p.createRule info.id c = p.createRule info.id c' := by
  cases hp with
  | builtin hp => exact createRule_builtin_congr hp hinfo h
  | @declared _ _ s _ =>
    have hlines : "max_lines" ∈ s.provider.optionKeys info :=
      List.mem_append_right _ (by simp [DeclaredRuleSet.provider])
    change s.createRule info.id c = s.createRule info.id c'
    rw [DeclaredRuleSet.createRule.eq_def, h.value? _ hlines Reader.count_plain,
      DeclaredRuleSet.createRule.eq_def]

theorem Known.bind_congr [PatternLanguage] {p : Provider} (hp : p.Known) {info : RuleInfo}
    (hinfo : info ∈ p.rules) {key : String} {s s' : Config}
    (h : Config.AgreeOn (ruleKeys ++ p.optionKeys info) (s.sub key) (s'.sub key))
    (setActive allRules : Bool) :
    (p.bind info key s setActive allRules).map (·.detached) =
      (p.bind info key s' setActive allRules).map (·.detached) := by
  have hcommon : ∀ {name : String}, name ∈ ruleKeys → name ∈ ruleKeys ++ p.optionKeys info :=
    fun hname => List.mem_append_left _ hname
  have hrule := hp.createRule_congr hinfo (h.mono (List.subset_append_right _ _))
  unfold Provider.bind RuleInstance.create
  dsimp only
  rw [activationOf_congr h (hcommon (by decide)), severityOf_congr h (hcommon (by decide)),
    h.valueD (hcommon (by decide)) Reader.texts_plain, hrule,
    filter_congr h (hcommon (by decide)) (hcommon (by decide))]
  simp only [resolver_congr h (hcommon (by decide)) (hcommon (by decide))]
  refine Success.map_bind_congr_right fun activation => ?_
  refine Success.map_bind_congr_right fun severity => ?_
  refine Success.map_bind_congr_right fun aliases => ?_
  refine Success.map_bind_congr_right fun rule => ?_
  refine Success.map_bind_congr_right fun filter => ?_
  exact Success.map_bind_congr_right fun resolver => rfl

/-! ### Rule sets -/

/-- Two configurations that read alike for a rule set: in its scope, in the keys that add an
instance, and in the scope of every instance. -/
structure AgreeFor (p : Provider) (c c' : Config) : Prop where
  set : Config.AgreeOn setKeys (c.sub p.id) (c'.sub p.id)
  added : p.customKeys (c.sub p.id) = p.customKeys (c'.sub p.id)
  rules : ∀ info ∈ p.rules, ∀ key, key = info.id ∨ (customBase? key).bind p.rule? = some info →
    Config.AgreeOn (ruleKeys ++ p.optionKeys info) ((c.sub p.id).sub key) ((c'.sub p.id).sub key)

theorem rule?_mem {p : Provider} {id : String} {info : RuleInfo} (h : p.rule? id = some info) :
    info ∈ p.rules :=
  List.mem_of_find?_eq_some h

theorem Known.instantiate_congr [PatternLanguage] {p : Provider} (hp : p.Known) {c c' : Config}
    (h : p.AgreeFor c c') (allRules : Bool) :
    (p.instantiate c allRules).map (·.detached) = (p.instantiate c' allRules).map (·.detached) := by
  unfold instantiate
  dsimp only
  rw [h.set.valueD (by decide) Reader.flag_plain, h.added,
    filter_congr h.set (by decide) (by decide)]
  refine Success.map_bind_congr_right fun setActive => ?_
  have hrules : ∀ entry ∈ p.rules.map (fun info => (info.id, info)) ++ p.customKeys (c'.sub p.id),
      (p.bind entry.2 entry.1 (c.sub p.id) setActive allRules).map (·.detached) =
        (p.bind entry.2 entry.1 (c'.sub p.id) setActive allRules).map (·.detached) := by
    intro entry hentry
    rcases List.mem_append.mp hentry with hown | hadded
    · obtain ⟨info, hinfo, rfl⟩ := List.mem_map.mp hown
      exact hp.bind_congr hinfo (h.rules info hinfo info.id (.inl rfl)) setActive allRules
    · obtain ⟨key, info⟩ := entry
      have hbase := (mem_customKeys.mp hadded).2
      obtain ⟨base, -, hinfo⟩ := Option.bind_eq_some_iff.mp hbase
      exact hp.bind_congr (rule?_mem hinfo) (h.rules info (rule?_mem hinfo) key (.inr hbase))
        setActive allRules
  refine Success.map_bind_congr (Success.map_mapM_congr hrules) fun rules rules' heq => ?_
  refine Success.map_bind_congr_right fun filter => ?_
  change Except.ok _ = Except.ok _
  simp only [RuleSet.detached, heq]

end Provider

/-! ### Registries -/

namespace Registry

theorem filter_detached {set set' : RuleSet} (h : set.detached = set'.detached) (rule : String) :
    (set.rules.filter fun i => i.descriptor.ruleId == rule).map (·.detached) =
      (set'.rules.filter fun i => i.descriptor.ruleId == rule).map (·.detached) := by
  have hrules : set.rules.map (·.detached) = set'.rules.map (·.detached) := congrArg RuleSet.rules h
  have hfilter : ∀ rules : List RuleInstance,
      (rules.filter fun i => i.descriptor.ruleId == rule).map (·.detached) =
        (rules.map (·.detached)).filter fun i => i.descriptor.ruleId == rule := by
    intro rules
    rw [List.filter_map]
    rfl
  rw [hfilter, hfilter, hrules]

theorem buildSingle_congr [PatternLanguage] {p : Provider} (hp : p.Known) {c c' : Config}
    (h : p.AgreeFor c c') (rule : String) :
    (buildSingle p rule c).map (·.detached) = (buildSingle p rule c').map (·.detached) := by
  unfold buildSingle
  dsimp only
  split
  · change Except.error _ = Except.error _
    rfl
  refine Success.map_bind_congr (hp.instantiate_congr h true) fun set set' heq => ?_
  have hid : set.id = set'.id := (congrArg RuleSet.id heq : set.detached.id = set'.detached.id)
  have hpaths : set.filter = set'.filter :=
    (congrArg RuleSet.filter heq : set.detached.filter = set'.detached.filter)
  have hrules := filter_detached heq rule
  generalize set.rules.filter (fun i => i.descriptor.ruleId == rule) = rules at hrules ⊢
  generalize set'.rules.filter (fun i => i.descriptor.ruleId == rule) = rules' at hrules ⊢
  have hempty : rules.isEmpty = rules'.isEmpty := by
    have hmapped := congrArg List.isEmpty hrules
    simpa using hmapped
  rw [hempty]
  split
  · change Except.error _ = Except.error _
    rfl
  -- Forcing the instances active has nothing to do with what they carry along.
  let force := fun i : RuleInstance =>
    { i with descriptor := { i.descriptor with activation := .forced } }
  have hforced : ∀ rules : List RuleInstance,
      (rules.map force).map (·.detached) = (rules.map (·.detached)).map force := by
    intro rules
    rw [List.map_map, List.map_map]
    rfl
  have hresult : (rules.map force).map (·.detached) = (rules'.map force).map (·.detached) := by
    rw [hforced, hforced, hrules]
  change Except.ok (RuleSet.mk set.id ((rules.map force).map (·.detached)) set.filter) =
    Except.ok (RuleSet.mk set'.id ((rules'.map force).map (·.detached)) set'.filter)
  rw [hid, hpaths, hresult]

theorem build_congr [PatternLanguage] {r : Registry} (hr : r.Stocked) {c c' : Config}
    (h : ∀ p ∈ r.providers, p.AgreeFor c c') (d : Discovery) (restriction : Restriction)
    (allRules : Bool) :
    (r.build c d restriction allRules).map (List.map (·.detached)) =
      (r.build c' d restriction allRules).map (List.map (·.detached)) := by
  cases restriction with
  | all =>
    refine Success.map_mapM_congr fun p hp => ?_
    have hmem := List.mem_of_mem_filter hp
    exact (hr.known p hmem).instantiate_congr (h p hmem) allRules
  | single ruleSet rule =>
    unfold build
    dsimp only
    cases hfind : (r.discover d).find? fun p => p.id == ruleSet with
    | none => rfl
    | some p =>
      have hmem := List.mem_of_mem_filter (List.mem_of_find?_eq_some hfind)
      have hsingle := buildSingle_congr (hr.known p hmem) (h p hmem) rule
      have hlist : ∀ x : Except ConfigError RuleSet,
          (x.map fun set => [set]).map (List.map (·.detached)) =
            (x.map (·.detached)).map fun set => [set] := by
        intro x
        cases x <;> rfl
      dsimp only
      rw [hlist, hlist, hsingle]

end Registry

/-! ### Configurations without a key -/

namespace Config

open Provider

theorem agreeOn_cut {c : Config} {keys : List Value} {names : List String}
    (h : ∀ name ∈ names, ¬ keys <+: (c.scope ++ [name]).map .string) :
    AgreeOn names c (c.cut keys) :=
  ⟨rfl, fun name hname _ _ hr => (value?_cut (h name hname) hr).symm⟩

theorem added?_of_same {p : Provider} {k k' : Value} {text : String}
    (h : ∀ text, k.scalarText? = some text → p.added? text = none)
    (hsame : Value.same k k' = true) (htext : k'.scalarText? = some text) :
    p.added? text = none := by
  cases hbase : customBase? text with
  | none => simp [added?, hbase]
  | some base =>
    -- Only a text holds a slash, and no other key is the same as a text.
    obtain rfl := Value.eq_string_of_slash htext (slash_of_customBase? hbase)
    have hk : k = .string text := by
      rw [← Value.isName_iff, Value.isName_of_same hsame]
      exact Value.isName_iff.mpr rfl
    exact h text (by rw [hk]; rfl)

/-- Taking out an entry changes the entries of the value, but not the instances they add unless it
is one of them that adds one. -/
theorem entries?_without {p : Provider} {inside : List Value}
    (h : ∀ k text, inside = [k] → k.scalarText? = some text → p.added? text = none) (v : Value) :
    ∃ f : List (Value × Value) → List (Value × Value),
      (v.without inside).entries? = v.entries?.map f ∧
      ∀ entries, ((f entries).filterMap fun e => e.1.scalarText?).filterMap p.added? =
        (entries.filterMap fun e => e.1.scalarText?).filterMap p.added? := by
  -- The entry is in the value itself, or further inside, where its key stays.
  match inside with
  | [] => exact ⟨id, by simp [Value.without], fun _ => rfl⟩
  | [k] =>
    refine ⟨_, Value.entries?_mapEntries _ v, fun entries => ?_⟩
    rw [List.filterMap_filterMap, List.filterMap_filterMap, List.filterMap_filter]
    refine List.filterMap_congr fun e _ => ?_
    by_cases hsame : Value.same k e.1 = true
    · rw [if_neg (by simpa using hsame)]
      cases htext : e.1.scalarText? with
      | none => rfl
      | some text => exact (added?_of_same (fun text => h k text rfl) hsame htext).symm
    · rw [if_pos (by simpa using hsame)]
  | k :: k' :: rest =>
    refine ⟨_, Value.entries?_mapEntries _ v, fun entries => ?_⟩
    rw [List.filterMap_map]
    congr 1
    refine List.filterMap_congr fun e _ => ?_
    by_cases hsame : Value.same k e.1 = true
    · simp [hsame]
    · simp [hsame]

theorem customKeys_cut (p : Provider) {c : Config} {keys : List Value}
    (hscope : ¬ keys <+: c.scope.map .string)
    (h : ∀ k text, keys = c.scope.map .string ++ [k] → k.scalarText? = some text →
      p.added? text = none) :
    p.customKeys c = p.customKeys (c.cut keys) := by
  obtain ⟨inside, hat, hinside⟩ := Value.at?_without hscope c.root
  have hadds : ∀ k text, inside = [k] → k.scalarText? = some text → p.added? text = none := by
    rintro k text rfl htext
    exact h k text (hinside.resolve_left (by simp)) htext
  have hnode : (c.cut keys).node? = c.node?.map (Value.without inside) := hat
  rw [customKeys_eq, customKeys_eq, Config.keys, Config.keys, hnode]
  cases c.node? with
  | none => rfl
  | some v =>
    obtain ⟨f, hentries, hsame⟩ := entries?_without hadds v
    rw [Option.map_some, Option.bind_some, Option.bind_some, hentries]
    cases v.entries? with
    | none => rfl
    | some entries => exact (hsame entries).symm

end Config

end CodeAudit
