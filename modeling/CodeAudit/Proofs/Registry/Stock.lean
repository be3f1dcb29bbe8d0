import CodeAudit.Proofs.Success
import CodeAudit.Registry
import Mathlib.Data.List.Nodup

namespace CodeAudit

/-! ### Declared rule sets -/

namespace DeclaredRuleSet

/-- A rule that was made of a definition has its name, which was not known before, and declares no
option but the number of lines. -/
theorem of_ruleOf {set : String} {known : List String} {d : RuleDefinition}
    {r : RuleInfo × DeclaredRule} (h : ruleOf set known d = .ok r) :
    r.1.id = d.id ∧ d.id ∉ known ∧ ∀ o ∈ r.1.options, o.name = "max_lines" := by
  unfold ruleOf at h
  by_cases hknown : known.contains d.id = true
  · simp only [hknown, if_true] at h
    cases h
  simp only [hknown] at h
  cases hseverity : Severity.parse? d.severity with
  | none =>
    simp only [hseverity] at h
    cases h
  | some severity =>
    simp only [hseverity] at h
    obtain ⟨severity', -, h⟩ := Success.of_bind h
    obtain ⟨target, -, h⟩ := Success.of_bind h
    obtain rfl := Except.ok.inj h
    refine ⟨rfl, by simpa using hknown, ?_⟩
    cases d.maxLines with
    | none => simp
    | some n => simp

theorem options_rulesOf {set : String} {known : List String} {ds : List RuleDefinition}
    {rules : List (RuleInfo × DeclaredRule)} (h : rulesOf set known ds = .ok rules) :
    ∀ r ∈ rules, ∀ o ∈ r.1.options, o.name = "max_lines" := by
  induction ds generalizing known rules with
  | nil =>
    obtain rfl := Except.ok.inj h
    simp
  | cons d rest ih =>
    obtain ⟨r, hr, h⟩ := Success.of_bind h
    obtain ⟨rs, hrs, h⟩ := Success.of_bind h
    obtain rfl := Except.ok.inj h
    exact List.forall_mem_cons.mpr ⟨(of_ruleOf hr).2.2, ih hrs⟩

theorem nodup_rulesOf {set : String} {known : List String} {ds : List RuleDefinition}
    {rules : List (RuleInfo × DeclaredRule)} (h : rulesOf set known ds = .ok rules) :
    (rules.map (·.1.id)).Nodup ∧ ∀ r ∈ rules, r.1.id ∉ known := by
  induction ds generalizing known rules with
  | nil =>
    obtain rfl := Except.ok.inj h
    simp
  | cons d rest ih =>
    obtain ⟨r, hr, h⟩ := Success.of_bind h
    obtain ⟨rs, hrs, h⟩ := Success.of_bind h
    obtain rfl := Except.ok.inj h
    obtain ⟨hid, hknown, -⟩ := of_ruleOf hr
    -- The rules behind are fresh for all names so far, the one of this rule included.
    obtain ⟨hnodup, hfresh⟩ := ih hrs
    constructor
    · rw [List.map_cons, List.nodup_cons, hid]
      refine ⟨?_, hnodup⟩
      rw [List.mem_map]
      rintro ⟨r', hr', heq⟩
      exact hfresh r' hr' (by simp [heq])
    · intro r' hr'
      rcases List.mem_cons.mp hr' with rfl | hr'
      · rw [hid]
        exact hknown
      · intro hmem
        exact hfresh r' hr' (List.mem_append_left _ hmem)

theorem of_ofManifest {m : Manifest} {source : Path} {s : DeclaredRuleSet}
    (h : ofManifest m source = .ok s) :
    s.id = m.id ∧ Text.isBlankText m.id = false ∧ rulesOf m.id [] m.rules = .ok s.rules := by
  unfold ofManifest at h
  split at h
  · cases h
  next hblank =>
    obtain ⟨rules, hrules, h⟩ := Success.of_bind h
    obtain rfl := Except.ok.inj h
    exact ⟨rfl, by simpa using hblank, hrules⟩

end DeclaredRuleSet

namespace Registry

theorem of_register {r r' : Registry} {p : Provider} (h : r.register p = .ok r') :
    p.id ∉ r.providers.map (·.id) ∧ r'.providers = r.providers ++ [p] := by
  unfold register at h
  split at h
  · cases h
  next htaken =>
    obtain rfl := Except.ok.inj h
    refine ⟨?_, rfl⟩
    rw [List.mem_map]
    rintro ⟨q, hq, hid⟩
    apply htaken
    rw [provider?, List.find?_isSome]
    exact ⟨q, hq, by simpa using hid⟩

end Registry

section

variable [PatternLanguage]

namespace Provider

/-- A provider that is always at hand, or one that a manifest declares. -/
inductive Known : Provider → Prop
  | builtin {p : Provider} (h : p ∈ Builtin.providers) : Known p
  | declared {m : Manifest} {source : Path} {s : DeclaredRuleSet}
      (h : DeclaredRuleSet.ofManifest m source = .ok s) : Known s.provider

theorem forall_builtin_rules {motive : List RuleInfo → Prop}
    (h : ∀ rules ∈ [Builtin.complexityRules, Builtin.styleRules, Builtin.guardRules], motive rules) :
    ∀ p ∈ Builtin.providers, motive p.rules := by
  have hrules : Builtin.providers.map (·.rules) =
      [Builtin.complexityRules, Builtin.styleRules, Builtin.guardRules] := rfl
  intro p hp
  exact h _ (hrules ▸ List.mem_map_of_mem hp)

theorem builtin_of_mem : ∀ p ∈ Builtin.providers, p.builtin = true := by
  simp only [Builtin.providers, List.mem_cons, List.not_mem_nil, or_false]
  rintro p (rfl | rfl | rfl) <;> rfl

theorem builtin_ids : Builtin.providers.map (·.id) = ["complexity", "style", "guard"] := rfl

theorem Known.nodup_rules {p : Provider} (h : p.Known) : (p.rules.map (·.id)).Nodup := by
  cases h with
  | builtin h =>
    apply forall_builtin_rules (motive := fun rules => (rules.map (·.id)).Nodup) (by decide) p h
  | declared h =>
    have hnodup := (DeclaredRuleSet.nodup_rulesOf (DeclaredRuleSet.of_ofManifest h).2.2).1
    simpa [DeclaredRuleSet.provider, Function.comp_def] using hnodup

theorem Known.slashless_rules {p : Provider} (h : p.Known) (hbuiltin : p.builtin = true)
    {info : RuleInfo} (hinfo : info ∈ p.rules) : '/' ∉ info.id.toList := by
  cases h with
  | builtin h =>
    exact forall_builtin_rules (motive := fun rules => ∀ info ∈ rules, '/' ∉ info.id.toList)
      (by decide) p h info hinfo
  | declared _ => cases hbuiltin

/-- A declared rule set has no options but the number of lines. -/
theorem Known.options_declared {p : Provider} (h : p.Known) (hbuiltin : p.builtin = false)
    {info : RuleInfo} (hinfo : info ∈ p.rules) : ∀ o ∈ info.options, o.name = "max_lines" := by
  cases h with
  | builtin h => cases (builtin_of_mem p h).symm.trans hbuiltin
  | declared h =>
    obtain ⟨r, hr, rfl⟩ := List.mem_map.mp hinfo
    exact DeclaredRuleSet.options_rulesOf (DeclaredRuleSet.of_ofManifest h).2.2 r hr

theorem Known.id_ne_empty {p : Provider} (h : p.Known) : p.id ≠ "" := by
  cases h with
  | builtin h =>
    have hmem : p.id ∈ Builtin.providers.map (·.id) := List.mem_map_of_mem h
    rw [builtin_ids] at hmem
    rintro heq
    simp [heq] at hmem
  | declared h =>
    obtain ⟨hid, hblank, -⟩ := DeclaredRuleSet.of_ofManifest h
    change DeclaredRuleSet.id _ ≠ ""
    rintro heq
    rw [← hid, heq] at hblank
    cases hblank

end Provider

namespace Registry

/-- A registry of rule sets that are always at hand and of declared ones. -/
inductive Stocked : Registry → Prop
  | empty : Stocked {}
  | builtin : Stocked Registry.builtin
  | register {r r' : Registry} {p : Provider} (hr : Stocked r) (hp : p.Known)
      (h : r.register p = .ok r') : Stocked r'
  | addSearchPath {r : Registry} (hr : Stocked r) (path : Path) : Stocked (r.addSearchPath path)

theorem Stocked.known {r : Registry} (h : r.Stocked) : ∀ p ∈ r.providers, p.Known := by
  induction h with
  | empty => simp
  | builtin => exact fun p hp => .builtin hp
  | register _ hp hregister ih =>
    rw [(of_register hregister).2]
    simpa [or_imp, forall_and] using ⟨ih, hp⟩
  | addSearchPath _ _ ih => exact ih

theorem Stocked.nodup_ids {r : Registry} (h : r.Stocked) : (r.providers.map (·.id)).Nodup := by
  induction h with
  | empty => exact .nil
  | builtin =>
    change (Builtin.providers.map (·.id)).Nodup
    rw [Provider.builtin_ids]
    decide
  | register _ _ hregister ih =>
    obtain ⟨hfresh, hproviders⟩ := of_register hregister
    rw [hproviders, List.map_append, List.map_singleton, ← List.concat_eq_append]
    exact ih.concat hfresh
  | addSearchPath _ _ ih => exact ih

/-! ### Loading -/

theorem Stocked.load {r r' : Registry} {fs : FileSystem} {path : Path} {id : String}
    (hr : r.Stocked) (h : r.load fs path = .ok (r', id)) : r'.Stocked := by
  obtain ⟨set, hset, h⟩ := Success.of_bind h
  obtain ⟨manifest, -, hset⟩ := Success.of_bind hset
  obtain ⟨registered, hregistered, h⟩ := Success.of_bind h
  obtain ⟨rfl, -⟩ := Prod.mk.inj (Except.ok.inj h)
  exact .register hr (.declared hset) hregistered

theorem Stocked.loadEach {r : Registry} (hr : r.Stocked) (fs : FileSystem) (paths : List Path) :
    (loadEach fs r paths).1.Stocked := by
  induction paths generalizing r with
  | nil => exact hr
  | cons path rest ih =>
    unfold Registry.loadEach
    cases hload : r.load fs path with
    | error e => exact ih hr
    | ok loaded =>
      obtain ⟨r', id⟩ := loaded
      exact ih (hr.load hload)

theorem Stocked.loadAll {r : Registry} (hr : r.Stocked) (fs : FileSystem) :
    (r.loadAll fs).1.Stocked :=
  hr.loadEach fs _

end Registry

end

end CodeAudit
