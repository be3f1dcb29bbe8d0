import CodeAudit.Proofs.Provider.Reads
import CodeAudit.Proofs.Registry.Single

namespace CodeAudit

/-! ### Lists -/

theorem filter_eq_singleton_of_nodup {α : Type} {name : α → String} {l : List α}
    (h : (l.map name).Nodup) {a : α} (ha : a ∈ l) : l.filter (fun x => name x == name a) = [a] := by
  rw [← List.perm_singleton]
  refine (List.perm_ext_iff_of_nodup (h.of_map.filter _) (List.nodup_singleton a)).mpr fun x => ?_
  rw [List.mem_filter, List.mem_singleton, beq_iff_eq]
  constructor
  · rintro ⟨hx, hname⟩
    exact List.inj_on_of_nodup_map h hx ha hname
  · rintro rfl
    exact ⟨ha, rfl⟩

theorem forall₂_of_common {α β γ : Type} {A : α → β → Prop} {B : α → γ → Prop} {R : β → γ → Prop}
    {l : List α} {xs : List β} {ys : List γ} (hxs : List.Forall₂ A l xs)
    (hys : List.Forall₂ B l ys) (h : ∀ a ∈ l, ∀ x y, A a x → B a y → R x y) :
    List.Forall₂ R xs ys := by
  induction hxs generalizing ys with
  | nil =>
    cases hys
    exact .nil
  | @cons a x _ _ hx _ ih =>
    cases hys with
    | cons hy hys =>
      exact .cons (h a List.mem_cons_self _ _ hx hy)
        (ih hys fun a' ha' => h a' (List.mem_cons_of_mem _ ha'))

theorem flatMap_eq_of_forall₂ {α β γ : Type} {R : α → β → Prop} {f : α → List γ} {g : β → List γ}
    {l : List α} {l' : List β} (h : List.Forall₂ R l l') (hfg : ∀ a b, R a b → f a = g b) :
    l.flatMap f = l'.flatMap g := by
  induction h with
  | nil => rfl
  | cons hab _ ih => rw [List.flatMap_cons, List.flatMap_cons, hfg _ _ hab, ih]

/-! ### Scopes -/

namespace Config

/-- Two configurations that are seen from one scope and have the same value there, or both none. -/
structure Alike (c c' : Config) : Prop where
  scope : c.scope = c'.scope
  node? : c.node? = c'.node?

theorem node?_sub (c : Config) (name : String) : (c.sub name).node? = c.raw? name :=
  (c.raw?_eq_at? name).symm

theorem agreeOn_of_raw? {keys : List String} {c c' : Config} (hscope : c.scope = c'.scope)
    (h : ∀ key ∈ keys, c.raw? key = c'.raw? key) : AgreeOn keys c c' := by
  refine ⟨hscope, fun key hkey α r _ => ?_⟩
  rw [value?, h key hkey, keyPath, hscope, value?, keyPath]

theorem Alike.agreeOn {c c' : Config} (h : Alike c c') (keys : List String) :
    AgreeOn keys c c' := by
  refine agreeOn_of_raw? h.scope fun key _ => ?_
  rw [raw?, h.node?, raw?]

theorem mem_keys_iff_of_slash {c : Config} {key : String} (hslash : '/' ∈ key.toList) :
    key ∈ c.keys ↔ (c.raw? key).isSome = true := by
  have hraw : c.raw? key = (c.node?.bind Value.entries?).bind (Value.lookup key) := by
    rw [Option.bind_assoc]
    rfl
  rw [hraw, keys]
  cases c.node?.bind Value.entries? with
  | none => simp
  | some entries =>
    rw [Option.bind_some, Value.lookup, Option.isSome_map, List.find?_isSome, List.mem_filterMap]
    -- Numbers and truth values are keys too, but a look-up by name finds texts only.
    constructor
    · rintro ⟨e, he, htext⟩
      exact ⟨e, he, Value.isName_iff.mpr (Value.eq_string_of_slash htext hslash)⟩
    · rintro ⟨e, he, hname⟩
      exact ⟨e, he, by rw [Value.isName_iff.mp hname]; rfl⟩

end Config

/-! ### Rules -/

namespace Provider

/-- The rules of the provider know of a configuration what is in the scope they are given. -/
def Scoped (p : Provider) : Prop :=
  ∀ info ∈ p.rules, ∀ {c c' : Config}, c.Alike c' → ∀ {rule rule' : Rule},
    p.createRule info.id c = .ok rule → p.createRule info.id c' = .ok rule' →
    ∀ (tree : Tree) (descriptor : Descriptor),
      rule.visit { tree, descriptor, config := c } = rule'.visit { tree, descriptor, config := c' }

theorem perNode_of_builtin [PatternLanguage] {p : Provider} (hp : p ∈ Builtin.providers)
    {info : RuleInfo} (hinfo : info ∈ p.rules) {c : Config} {rule : Rule}
    (h : p.createRule info.id c = .ok rule) :
    ∃ message, rule = .perNode message := by
  simp only [Builtin.providers, List.mem_cons, List.not_mem_nil, or_false] at hp
  rcases hp with rfl | rfl | rfl
  · simp only [Builtin.complexity, Builtin.complexityRules, List.mem_cons, List.not_mem_nil,
      or_false] at hinfo
    rcases hinfo with rfl | rfl | rfl <;>
    · obtain ⟨threshold, -, rfl⟩ := Success.of_map h
      exact ⟨_, rfl⟩
  · have hnaming : ∀ kinds label default, Builtin.namingOf kinds label default c = .ok rule →
        ∃ message, rule = .perNode message := by
      intro kinds label default h
      obtain ⟨pattern, -, h⟩ := Success.of_bind h
      split at h
      · obtain rfl := Except.ok.inj h
        exact ⟨_, rfl⟩
      · cases h
    simp only [Builtin.style, Builtin.styleRules, List.mem_cons, List.not_mem_nil, or_false]
      at hinfo
    rcases hinfo with rfl | rfl <;> exact hnaming _ _ _ h
  · simp only [Builtin.guardProvider, Builtin.guardRules, List.mem_cons, List.not_mem_nil, or_false]
      at hinfo
    subst hinfo
    obtain ⟨rules, -, rfl⟩ := Success.of_map h
    exact ⟨_, rfl⟩

theorem Known.perNode_of_createRule [PatternLanguage] {p : Provider} (hp : p.Known) {info : RuleInfo}
    (hinfo : info ∈ p.rules) {c : Config} {rule : Rule} (h : p.createRule info.id c = .ok rule) :
    ∃ message, rule = .perNode message := by
  cases hp with
  | builtin hp => exact perNode_of_builtin hp hinfo h
  | @declared _ _ s _ =>
    change s.createRule info.id c = .ok rule at h
    unfold DeclaredRuleSet.createRule at h
    split at h
    · cases h
    · obtain ⟨own, -, h⟩ := Success.of_bind h
      obtain rfl := Except.ok.inj h
      exact ⟨_, rfl⟩

theorem Known.scoped [PatternLanguage] {p : Provider} (hp : p.Known) : p.Scoped := by
  intro info hinfo c c' halike rule rule' hrule hrule' tree descriptor
  -- Both scopes give one rule, and that rule no longer looks at its configuration.
  rw [← hp.createRule_congr hinfo (halike.agreeOn _), hrule] at hrule'
  obtain rfl := Except.ok.inj hrule'
  obtain ⟨message, rfl⟩ := hp.perNode_of_createRule hinfo hrule
  rfl

/-! ### Instances -/

/-- Instances that are described alike, are let look at the same files and drop the same findings.
Where the provider keeps to the scopes it is given, they also see the same in every file. -/
structure Twin (p : Provider) (i i' : RuleInstance) : Prop where
  descriptor : i.descriptor = i'.descriptor
  filter : i.filter = i'.filter
  resolver : i.resolver = i'.resolver
  visit : p.Scoped → ∀ tree, i.visit tree = i'.visit tree

theorem twin_of_bind {p : Provider} {info : RuleInfo} (hinfo : info ∈ p.rules) {key : String}
    {s s' : Config} (halike : (s.sub key).Alike (s'.sub key)) {setActive allRules : Bool}
    {i i' : RuleInstance} (h : p.bind info key s setActive allRules = .ok i)
    (h' : p.bind info key s' setActive allRules = .ok i') : p.Twin i i' := by
  have hreads := halike.agreeOn ruleKeys
  obtain ⟨activation, hactivation, h⟩ := Success.of_bind h
  obtain ⟨severity, hseverity, h⟩ := Success.of_bind h
  obtain ⟨aliases, haliases, h⟩ := Success.of_bind h
  obtain ⟨rule, hrule, h⟩ := Success.of_bind h
  obtain ⟨filter, hfilter, h⟩ := Success.of_bind h
  obtain ⟨resolver, hresolver, h⟩ := Success.of_bind h
  obtain rfl := Except.ok.inj h
  rw [activationOf_congr hreads (by decide)] at hactivation
  rw [severityOf_congr hreads (by decide)] at hseverity
  rw [hreads.valueD (by decide) Reader.texts_plain] at haliases
  rw [filter_congr hreads (by decide) (by decide)] at hfilter
  rw [resolver_congr hreads (by decide) (by decide)] at hresolver
  -- The other binding reads the same values in the same order.
  obtain ⟨activation', hactivation', h'⟩ := Success.of_bind h'
  obtain rfl := Except.ok.inj (hactivation.symm.trans hactivation')
  obtain ⟨severity', hseverity', h'⟩ := Success.of_bind h'
  obtain rfl := Except.ok.inj (hseverity.symm.trans hseverity')
  obtain ⟨aliases', haliases', h'⟩ := Success.of_bind h'
  obtain rfl := Except.ok.inj (haliases.symm.trans haliases')
  obtain ⟨rule', hrule', h'⟩ := Success.of_bind h'
  obtain ⟨filter', hfilter', h'⟩ := Success.of_bind h'
  obtain rfl := Except.ok.inj (hfilter.symm.trans hfilter')
  obtain ⟨resolver', hresolver', h'⟩ := Success.of_bind h'
  obtain rfl := Except.ok.inj (hresolver.symm.trans hresolver')
  obtain rfl := Except.ok.inj h'
  refine ⟨rfl, rfl, rfl, fun hscoped tree => ?_⟩
  unfold RuleInstance.visit
  dsimp only
  rw [hscoped info hinfo halike hrule hrule']
  rfl

/-! ### Rule sets -/

/-- Two configurations that are the same in all that the instances with a key read: in the scope of
the key, which is there in both or in neither, and in the keys of the rule set itself. -/
structure AgreeAt (p : Provider) (key : String) (c c' : Config) : Prop where
  scope : c.scope = c'.scope
  set : ∀ name ∈ setKeys, (c.sub p.id).raw? name = (c'.sub p.id).raw? name
  own : (c.sub p.id).raw? key = (c'.sub p.id).raw? key

namespace AgreeAt

variable {p : Provider} {key : String} {c c' : Config}

theorem alike (h : p.AgreeAt key c c') :
    ((c.sub p.id).sub key).Alike ((c'.sub p.id).sub key) := by
  refine ⟨?_, ?_⟩
  · change c.scope ++ [p.id] ++ [key] = c'.scope ++ [p.id] ++ [key]
    rw [h.scope]
  · rw [Config.node?_sub, Config.node?_sub, h.own]

theorem agreeOn (h : p.AgreeAt key c c') :
    Config.AgreeOn setKeys (c.sub p.id) (c'.sub p.id) := by
  refine Config.agreeOn_of_raw? ?_ h.set
  change c.scope ++ [p.id] = c'.scope ++ [p.id]
  rw [h.scope]

end AgreeAt

/-- A key adds the one instance it names or none, and which of these depends on its own scope. -/
theorem AgreeAt.filter_customKeys {p : Provider} {key : String} {c c' : Config}
    (h : p.AgreeAt key c c') (hroot : c.root.distinct = true) (hroot' : c'.root.distinct = true) :
    (p.customKeys (c.sub p.id)).filter (fun e => e.1 == key) =
      (p.customKeys (c'.sub p.id)).filter (fun e => e.1 == key) := by
  have hsame : ∀ info, (key, info) ∈ p.customKeys (c.sub p.id) ↔
      (key, info) ∈ p.customKeys (c'.sub p.id) := by
    intro info
    rw [mem_customKeys, mem_customKeys]
    refine and_congr_left fun hinfo => ?_
    -- A name that adds an instance has a slash, and is then a key just when it has a value.
    obtain ⟨base, hbase, -⟩ := Option.bind_eq_some_iff.mp hinfo
    have hslash := slash_of_customBase? hbase
    rw [Config.mem_keys_iff_of_slash hslash, Config.mem_keys_iff_of_slash hslash, h.own]
  by_cases hadded : ∃ info, (key, info) ∈ p.customKeys (c.sub p.id)
  · obtain ⟨info, hmem⟩ := hadded
    have hone := filter_eq_singleton_of_nodup (@nodup_customKeys p (c.sub p.id) hroot) hmem
    have hone' := filter_eq_singleton_of_nodup (@nodup_customKeys p (c'.sub p.id) hroot')
      ((hsame info).mp hmem)
    exact hone.trans hone'.symm
  · have hnone : ∀ s : Config, (∀ info, (key, info) ∉ p.customKeys s) →
        (p.customKeys s).filter (fun e => e.1 == key) = [] := by
      intro s hs
      refine List.filter_eq_nil_iff.mpr fun e he hname => ?_
      obtain rfl := beq_iff_eq.mp hname
      exact hs e.2 he
    rw [hnone _ fun info hmem => hadded ⟨info, hmem⟩,
      hnone _ fun info hmem => hadded ⟨info, (hsame info).mpr hmem⟩]

/-- The names that instances are bound to, each with its rule. -/
def entries (p : Provider) (setScope : Config) : List (String × RuleInfo) :=
  p.rules.map (fun info => (info.id, info)) ++ p.customKeys setScope

theorem mem_rules_of_entry {p : Provider} {setScope : Config} {e : String × RuleInfo}
    (h : e ∈ p.entries setScope) : e.2 ∈ p.rules := by
  rcases List.mem_append.mp h with hown | hadded
  · obtain ⟨info, hinfo, rfl⟩ := List.mem_map.mp hown
    exact hinfo
  · obtain ⟨base, -, hrule⟩ := Option.bind_eq_some_iff.mp (mem_customKeys.mp hadded).2
    exact rule?_mem hrule

theorem forall₂_only {p : Provider} {s : Config} {setActive allRules : Bool}
    {rules : List RuleInstance}
    (h : (p.entries s).mapM (fun e => p.bind e.2 e.1 s setActive allRules) = .ok rules)
    (key : String) :
    List.Forall₂ (fun e i => p.bind e.2 e.1 s setActive allRules = .ok i)
      ((p.entries s).filter fun e => e.1 == key)
      (rules.filter fun i => i.descriptor.ruleId == key) := by
  refine List.rel_filter (fun e i hbind => ?_) (Success.forall₂_of_mapM h)
  change (e.1 == key) = true ↔ (i.descriptor.ruleId == key) = true
  rw [(of_bind hbind).2.1]

theorem AgreeAt.twins {p : Provider} {key : String} {c c' : Config}
    (hagree : p.AgreeAt key c c') (hroot : c.root.distinct = true)
    (hroot' : c'.root.distinct = true) {allRules : Bool} {set set' : RuleSet}
    (h : p.instantiate c allRules = .ok set) (h' : p.instantiate c' allRules = .ok set') :
    set.filter = set'.filter ∧ List.Forall₂ p.Twin (set.only key).rules (set'.only key).rules := by
  have hreads := hagree.agreeOn
  obtain ⟨setActive, hactive, h⟩ := Success.of_bind h
  obtain ⟨rules, hrules, h⟩ := Success.of_bind h
  obtain ⟨filter, hfilter, h⟩ := Success.of_bind h
  obtain rfl := Except.ok.inj h
  rw [hreads.valueD (by decide) Reader.flag_plain] at hactive
  rw [filter_congr hreads (by decide) (by decide)] at hfilter
  obtain ⟨setActive', hactive', h'⟩ := Success.of_bind h'
  obtain rfl := Except.ok.inj (hactive.symm.trans hactive')
  obtain ⟨rules', hrules', h'⟩ := Success.of_bind h'
  obtain ⟨filter', hfilter', h'⟩ := Success.of_bind h'
  obtain rfl := Except.ok.inj (hfilter.symm.trans hfilter')
  obtain rfl := Except.ok.inj h'
  refine ⟨rfl, ?_⟩
  -- Of the entries that are bound, those under the key are the same in both configurations.
  have hentries : (p.entries (c.sub p.id)).filter (fun e => e.1 == key) =
      (p.entries (c'.sub p.id)).filter (fun e => e.1 == key) := by
    rw [entries, entries, List.filter_append, List.filter_append,
      hagree.filter_customKeys hroot hroot']
  have hbound := forall₂_only hrules key
  rw [hentries] at hbound
  refine forall₂_of_common hbound (forall₂_only hrules' key) fun e he i i' hbind hbind' => ?_
  obtain ⟨hentry, hkey⟩ := List.mem_filter.mp he
  obtain rfl := beq_iff_eq.mp hkey
  exact twin_of_bind (mem_rules_of_entry hentry) hagree.alike hbind hbind'

end Provider

end CodeAudit
