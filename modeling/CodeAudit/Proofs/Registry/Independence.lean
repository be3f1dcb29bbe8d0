import CodeAudit.Proofs.Engine.InputOrder
import CodeAudit.Proofs.Provider.Scope

namespace CodeAudit

open Ordered

/-- The finding carries the name of an instance. -/
def Finding.isOf (f : Finding) (ruleSet rule : String) : Bool :=
  f.ruleSetId == ruleSet && f.ruleId == rule

/-! ### What is built -/

/-- What a restriction leaves of a rule set. -/
def Restriction.cut : Restriction → RuleSet → RuleSet
  | all, s => s
  | single _ rule, s => s.only rule

def Restriction.forces : Restriction → Bool → Bool
  | all, allRules => allRules
  | single _ _, _ => true

namespace Registry

open Provider

/-- The providers whose rule sets are built. -/
def chosen (r : Registry) (d : Discovery) : Restriction → List Provider
  | .all => r.discover d
  | .single ruleSet _ => ((r.discover d).find? fun p => p.id == ruleSet).toList

theorem mem_providers_of_chosen {r : Registry} {d : Discovery} {restriction : Restriction}
    {p : Provider} (h : p ∈ r.chosen d restriction) : p ∈ r.providers := by
  apply mem_providers_of_discover (d := d)
  cases restriction with
  | all => exact h
  | single ruleSet rule => exact List.mem_of_find?_eq_some (Option.mem_toList.mp h)

theorem of_buildSingle {p : Provider} {rule : String} {c : Config} {set : RuleSet}
    (h : buildSingle p rule c = .ok set) :
    ∃ whole, p.instantiate c true = .ok whole ∧ set = whole.only rule := by
  cases hwhole : p.instantiate c true with
  | error e =>
    simp only [buildSingle, hwhole] at h
    split at h <;> cases h
  | ok whole =>
    rw [buildSingle_eq hwhole] at h
    split at h
    · exact ⟨whole, rfl, (Except.ok.inj h).symm⟩
    · cases h

theorem of_build {r : Registry} {c : Config} {d : Discovery} {restriction : Restriction}
    {allRules : Bool} {sets : List RuleSet} (h : r.build c d restriction allRules = .ok sets) :
    List.Forall₂ (fun p s => ∃ whole, p.instantiate c (restriction.forces allRules) = .ok whole ∧
      s = restriction.cut whole) (r.chosen d restriction) sets := by
  cases restriction with
  | all => exact (Success.forall₂_of_mapM h).imp fun p s hs => ⟨s, hs, rfl⟩
  | single ruleSet rule =>
    unfold build at h
    unfold chosen
    dsimp only at h ⊢
    cases hfind : (r.discover d).find? fun p => p.id == ruleSet with
    | none =>
      rw [hfind] at h
      cases h
    | some p =>
      rw [hfind] at h
      obtain ⟨set, hset, rfl⟩ := Success.of_map h
      exact .cons (of_buildSingle hset) .nil

theorem labelled_of_cut {p : Provider} {c : Config} {restriction : Restriction} {allRules : Bool}
    {whole : RuleSet} (h : p.instantiate c allRules = .ok whole) :
    (restriction.cut whole).id = p.id ∧
      ∀ i ∈ (restriction.cut whole).rules, i.descriptor.ruleSetId = p.id := by
  obtain ⟨hid, -, hrules⟩ := of_instantiate h
  cases restriction with
  | all => exact ⟨hid, fun i hi => (hrules i hi).1⟩
  | single ruleSet rule => exact ⟨hid, fun i hi => (hrules i (List.mem_of_mem_filter hi)).1⟩

theorem labelled_of_build {r : Registry} {c : Config} {d : Discovery} {restriction : Restriction}
    {allRules : Bool} {sets : List RuleSet} (h : r.build c d restriction allRules = .ok sets) :
    ∀ s ∈ sets, ∀ i ∈ s.rules, i.descriptor.ruleSetId = s.id := by
  have hlabelled : List.Forall₂ (fun s _ => (∀ i ∈ s.rules, i.descriptor.ruleSetId = s.id) ∧ True)
      sets (r.chosen d restriction) := by
    refine (of_build h).flip.imp ?_
    rintro s p ⟨whole, hwhole, rfl⟩
    obtain ⟨hid, hrules⟩ := labelled_of_cut hwhole
    exact ⟨fun i hi => (hrules i hi).trans hid.symm, trivial⟩
  exact ((List.forall₂_and_left _ _).mp hlabelled).1

/-- The rule sets of a provider with the same filter and like instances of a name. -/
def LikeSets (p : Provider) (key : String) (s s' : RuleSet) : Prop :=
  s.filter = s'.filter ∧ List.Forall₂ p.Twin (s.only key).rules (s'.only key).rules

theorem LikeSets.cut {p : Provider} {key : String} {s s' : RuleSet} (h : LikeSets p key s s')
    (restriction : Restriction) : LikeSets p key (restriction.cut s) (restriction.cut s') := by
  cases restriction with
  | all => exact h
  | single ruleSet rule =>
    refine ⟨h.1, ?_⟩
    -- It makes no difference which of the two names the rules are cut down to first.
    have hrules := List.rel_filter
      (p := fun i : RuleInstance => i.descriptor.ruleId == rule)
      (q := fun i : RuleInstance => i.descriptor.ruleId == rule)
      (fun i i' htwin => by simp only [htwin.descriptor]) h.2
    simp only [RuleSet.only, Restriction.cut, List.filter_filter] at hrules ⊢
    simpa only [Bool.and_comm] using hrules

theorem likeSets_of_build {r : Registry} (hids : (r.providers.map (·.id)).Nodup) {p : Provider}
    (hp : p ∈ r.providers) {key : String} {c c' : Config} (hagree : p.AgreeAt key c c')
    (hroot : c.root.distinct = true) (hroot' : c'.root.distinct = true) {d : Discovery}
    {restriction : Restriction} {allRules : Bool} {sets sets' : List RuleSet}
    (h : r.build c d restriction allRules = .ok sets)
    (h' : r.build c' d restriction allRules = .ok sets') :
    List.Forall₂ (LikeSets p key) (sets.filter fun s => s.id == p.id)
      (sets'.filter fun s => s.id == p.id) := by
  have hnamed : ∀ {c : Config} {sets : List RuleSet},
      r.build c d restriction allRules = .ok sets →
      List.Forall₂ (fun q s => ∃ whole, q.instantiate c (restriction.forces allRules) = .ok whole ∧
        s = restriction.cut whole) ((r.chosen d restriction).filter fun q => q.id == p.id)
        (sets.filter fun s => s.id == p.id) := by
    intro c sets h
    refine List.rel_filter ?_ (of_build h)
    rintro q s ⟨whole, hwhole, rfl⟩
    change (q.id == p.id) = true ↔ ((restriction.cut whole).id == p.id) = true
    rw [(labelled_of_cut hwhole).1]
  refine forall₂_of_common (hnamed h) (hnamed h') ?_
  rintro q hq s s' ⟨whole, hwhole, rfl⟩ ⟨whole', hwhole', rfl⟩
  -- Only the provider itself has its name.
  obtain ⟨hchosen, hid⟩ := List.mem_filter.mp hq
  obtain rfl := List.inj_on_of_nodup_map hids (mem_providers_of_chosen hchosen) hp
    (by simpa using hid)
  exact LikeSets.cut (hagree.twins hroot hroot' hwhole hwhole') restriction

end Registry

/-! ### What is reported -/

theorem Provider.Twin.reported {p : Provider} {i i' : RuleInstance} (h : p.Twin i i')
    (hscoped : p.Scoped) {s s' : RuleSet} (hfilter : s.filter = s'.filter) (tree : Tree) :
    Pairing.reported { tree, ruleSet := s, rule := i } =
      Pairing.reported { tree, ruleSet := s', rule := i' } := by
  have happlies : Pairing.applies { tree, ruleSet := s, rule := i } =
      Pairing.applies { tree, ruleSet := s', rule := i' } := by
    simp only [Pairing.applies, RuleInstance.isActive, h.descriptor, hfilter, h.filter, h.resolver]
  simp only [Pairing.reported, Pairing.visit?, happlies, h.visit hscoped tree, h.resolver]

namespace Engine

/-- What the instances of one name report: file by file. -/
def reportsOfRule (e : Engine) (trees : List Tree) (ruleSet rule : String) : List Finding :=
  trees.flatMap fun tree => (e.ruleSets.filter fun s => s.id == ruleSet).flatMap fun s =>
    (s.only rule).rules.flatMap fun i => Pairing.reported { tree, ruleSet := s, rule := i }

variable {e : Engine}

theorem filter_ruleId_reportsOf (trees : List Tree) (ruleSet rule : String) :
    (e.reportsOf trees ruleSet).filter (fun f => f.ruleId == rule) =
      e.reportsOfRule trees ruleSet rule := by
  rw [reportsOf_eq, List.filter_flatMap, reportsOfRule]
  refine List.flatMap_congr fun tree _ => ?_
  rw [List.filter_flatMap]
  refine List.flatMap_congr fun s _ => ?_
  refine filter_flatMap_of_blocks fun i _ f hf => ?_
  rw [(Pairing.stamped_of_reported hf).1]

theorem reportsOf_of_not_mem {name : String} (h : name ∉ e.ruleSetNames.toList)
    (trees : List Tree) : e.reportsOf trees name = [] := by
  have hnone : (e.ruleSets.filter fun s => s.id == name) = [] := by
    refine List.filter_eq_nil_iff.mpr fun s hs hname => h ?_
    rw [← List.contains_iff_mem]
    change e.ruleSetNames.contains name = true
    rw [ruleSetNames, TextSet.contains_ofList, List.contains_iff_mem, ← beq_iff_eq.mp hname]
    exact List.mem_map_of_mem hs
  rw [reportsOf_eq, hnone]
  simp

/-- Instances have the name of the rule set they are in. -/
def Labelled (e : Engine) : Prop :=
  ∀ s ∈ e.ruleSets, ∀ i ∈ s.rules, i.descriptor.ruleSetId = s.id

theorem Labelled.ruleSetId_of_reportsOf (hlabel : e.Labelled) {trees : List Tree} {name : String}
    {f : Finding} (hf : f ∈ e.reportsOf trees name) : f.ruleSetId = name := by
  rw [reportsOf_eq] at hf
  obtain ⟨tree, -, hf⟩ := List.mem_flatMap.mp hf
  obtain ⟨s, hs, hf⟩ := List.mem_flatMap.mp hf
  obtain ⟨i, hi, hf⟩ := List.mem_flatMap.mp hf
  obtain ⟨hs, hname⟩ := List.mem_filter.mp hs
  rw [(Pairing.stamped_of_reported hf).2.1, hlabel s hs i hi]
  exact beq_iff_eq.mp hname

theorem Labelled.filter_ruleSetId (hlabel : e.Labelled) (trees : List Tree) (ruleSet : String) :
    (e.ruleSetNames.toList.flatMap (e.reportsOf trees)).filter (fun f => f.ruleSetId == ruleSet) =
      e.reportsOf trees ruleSet := by
  have hblocks : ∀ name ∈ e.ruleSetNames.toList, ∀ f ∈ e.reportsOf trees name,
      (f.ruleSetId == ruleSet) = (name == ruleSet) := by
    intro name _ f hf
    rw [hlabel.ruleSetId_of_reportsOf hf]
  -- The names are distinct, so one block is left, or none where no rule set has the name.
  rw [filter_flatMap_of_blocks hblocks, List.filter_beq, e.ruleSetNames.nodup_toList.count]
  split
  · simp
  · rename_i hmissing
    rw [List.replicate_zero, List.flatMap_nil, reportsOf_of_not_mem hmissing]

/-- Where instances have the name of their rule set, the findings of a name come from the rule sets
and the instances of that name alone. -/
theorem Labelled.findings_isOf (hlabel : e.Labelled) (trees : List Tree) (ruleSet rule : String) :
    (e.analyze trees).findings.filter (·.isOf ruleSet rule) =
      Finding.sort (e.reportsOfRule trees ruleSet rule) := by
  have hisOf : (fun f : Finding => f.isOf ruleSet rule) =
      fun f => f.ruleId == rule && f.ruleSetId == ruleSet := by
    funext f
    rw [Finding.isOf, Bool.and_comm]
  -- The sort is stable, so the other findings may as well be left out before it.
  rw [findings_analyze_by_ruleSet, hisOf, ← filter_ruleId_reportsOf,
    ← hlabel.filter_ruleSetId, List.filter_filter]
  exact filter_sortBy Finding.order _ _

theorem reportsOfRule_congr {e e' : Engine} {p : Provider} (hscoped : p.Scoped) {key : String}
    (h : List.Forall₂ (Registry.LikeSets p key) (e.ruleSets.filter fun s => s.id == p.id)
      (e'.ruleSets.filter fun s => s.id == p.id)) (trees : List Tree) :
    e.reportsOfRule trees p.id key = e'.reportsOfRule trees p.id key := by
  refine List.flatMap_congr fun tree _ => flatMap_eq_of_forall₂ h fun s s' hlike => ?_
  exact flatMap_eq_of_forall₂ hlike.2 fun i i' htwin => htwin.reported hscoped hlike.1 tree

end Engine

/-! ### Independence -/

/-- The instances of a name among rule sets. -/
def instancesOf (sets : List RuleSet) (ruleSet rule : String) : List RuleInstance :=
  (sets.filter fun s => s.id == ruleSet).flatMap fun s => (s.only rule).rules

/-- Let rule sets be built from two configurations that are the same in the scope of a key and in
the keys of its rule set itself. Then the instances of that key are described alike and are let look
at the same files, and any engines that run the one and the other report the same findings for them
in the same order, whatever else the configurations and the engines differ in. The last is about
providers that keep to the scopes they are given, and those at hand and the declared ones do. -/
theorem instance_independent_of_other_scopes [PatternLanguage] {r : Registry}
    (hids : (r.providers.map (·.id)).Nodup) {p : Provider} (hp : p ∈ r.providers) {key : String}
    {c c' : Config} (hroot : c.root.distinct = true) (hroot' : c'.root.distinct = true)
    (hagree : p.AgreeAt key c c') {d : Discovery} {restriction : Restriction} {allRules : Bool}
    {sets sets' : List RuleSet} (h : r.build c d restriction allRules = .ok sets)
    (h' : r.build c' d restriction allRules = .ok sets') :
    (instancesOf sets p.id key).map (fun i => (i.descriptor, i.filter)) =
        (instancesOf sets' p.id key).map (fun i => (i.descriptor, i.filter)) ∧
      (p.Known → p.Scoped) ∧
      (p.Scoped → ∀ e e' : Engine, e.ruleSets = sets → e'.ruleSets = sets' → ∀ trees : List Tree,
        (e.run trees).2.findings.filter (·.isOf p.id key) =
          (e'.run trees).2.findings.filter (·.isOf p.id key)) := by
  have hlike := Registry.likeSets_of_build hids hp hagree hroot hroot' h h'
  refine ⟨?_, fun hknown => hknown.scoped, ?_⟩
  · rw [instancesOf, instancesOf, List.map_flatMap, List.map_flatMap]
    refine flatMap_eq_of_forall₂ hlike fun s s' hs => ?_
    rw [← List.forall₂_eq_eq_eq, List.forall₂_map_left_iff, List.forall₂_map_right_iff]
    exact hs.2.imp fun i i' htwin => Prod.ext htwin.descriptor htwin.filter
  · rintro hscoped e e' rfl rfl trees
    have hlabel : e.Labelled := Registry.labelled_of_build h
    have hlabel' : e'.Labelled := Registry.labelled_of_build h'
    change (e.analyze trees).findings.filter _ = (e'.analyze trees).findings.filter _
    rw [hlabel.findings_isOf, hlabel'.findings_isOf, Engine.reportsOfRule_congr hscoped hlike]

/-! ### A strict instance of a rule -/

namespace Strict

/-- An instance `LongMethod/strict` among other keys of its rule set. -/
def config (before behind others : List (Value × Value)) : Config where
  root := .mapping ((.string "complexity", .mapping (before ++
    (.string "LongMethod/strict", .mapping [(.string "threshold", .number (.int 0))]) :: behind)) ::
      others)

/-- The rule that the instance is based on reports errors. -/
def harsh : Config :=
  config [(.string "LongMethod", .mapping [(.string "severity", .string "error")])] [] []

/-- That rule is off, another instance of it stands in front, and another rule set is off. -/
def mild : Config :=
  config [(.string "LongMethod/lax", .mapping [])]
    [(.string "LongMethod", .mapping [(.string "active", .bool false)])]
    [(.string "guard", .mapping [(.string "active", .bool false)])]

def registry : Registry := { providers := [Builtin.complexity, Builtin.guardProvider] }

theorem agreeAt_strict : Builtin.complexity.AgreeAt "LongMethod/strict" harsh mild := by
  refine ⟨rfl, ?_, rfl⟩
  simp only [Provider.setKeys, List.forall_mem_cons, List.not_mem_nil, false_implies, implies_true,
    and_true]
  exact ⟨rfl, rfl, rfl⟩

end Strict

open Strict in
/-- The instance is built from both, at different places, with the severity that its rule has by
default and not the one that is configured for the rule, and it reports the same in both. -/
theorem strict_instance_independent :
    ∃ sets sets', registry.build harsh {} .all false = .ok sets ∧
      registry.build mild {} .all false = .ok sets' ∧
      (sets.flatMap fun s => s.rules.map (·.descriptor.ruleId)) =
        ["LongMethod", "LargeClass", "LongParameterList", "LongMethod/strict",
          "ForbiddenSuppress"] ∧
      (sets'.flatMap fun s => s.rules.map (·.descriptor.ruleId)) =
        ["LongMethod", "LargeClass", "LongParameterList", "LongMethod/lax", "LongMethod/strict",
          "ForbiddenSuppress"] ∧
      (instancesOf sets "complexity" "LongMethod/strict").map (·.descriptor.severity) =
        [.warning] ∧
      (instancesOf sets "complexity" "LongMethod/strict").map (fun i => (i.descriptor, i.filter)) =
        (instancesOf sets' "complexity" "LongMethod/strict").map
          (fun i => (i.descriptor, i.filter)) ∧
      ∀ trees : List Tree,
        (({ ruleSets := sets } : Engine).run trees).2.findings.filter
            (·.isOf "complexity" "LongMethod/strict") =
          (({ ruleSets := sets' } : Engine).run trees).2.findings.filter
            (·.isOf "complexity" "LongMethod/strict") := by
  obtain ⟨sets, hsets⟩ : ∃ sets, registry.build harsh {} .all false = .ok sets := ⟨_, rfl⟩
  obtain ⟨sets', hsets'⟩ : ∃ sets, registry.build mild {} .all false = .ok sets := ⟨_, rfl⟩
  have hknown : Builtin.complexity.Known := .builtin (by simp [Builtin.providers])
  obtain ⟨hinstances, hscoped, hfindings⟩ := instance_independent_of_other_scopes
    (r := registry) (by decide) (by simp [registry]) rfl rfl agreeAt_strict hsets hsets'
  refine ⟨sets, sets', hsets, hsets', ?_, ?_, ?_, hinstances,
    hfindings (hscoped hknown) _ _ rfl rfl⟩
  · cases hsets
    rfl
  · cases hsets'
    rfl
  · cases hsets
    rfl

end CodeAudit
