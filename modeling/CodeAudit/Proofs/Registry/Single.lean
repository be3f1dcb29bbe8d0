import CodeAudit.Proofs.Provider.Keys
import CodeAudit.Proofs.Registry.Stock
import CodeAudit.Regex.Language

namespace CodeAudit

/-! ### Reading a restriction -/

theorem Restriction.parse_eq_ok_iff {text : String} {restriction : Restriction} :
    parse text = .ok restriction ↔
      ∃ ruleSet rule, restriction = .single ruleSet rule ∧ text = ruleSet ++ ":" ++ rule ∧
        ':' ∉ ruleSet.toList ∧ ruleSet ≠ "" ∧ rule ≠ "" := by
  constructor
  · intro h
    unfold parse at h
    dsimp only at h
    split at h
    next ruleSet rule hcut =>
      obtain ⟨htext, hcolon⟩ := Text.cutAt?_eq_some_iff.mp hcut
      split at h
      · cases h
      next hfull =>
        obtain rfl := Except.ok.inj h
        have hne : ruleSet ≠ [] ∧ rule ≠ [] := by simpa using hfull
        refine ⟨_, _, rfl, ?_, by simpa using hcolon, by simpa using hne.1, by simpa using hne.2⟩
        apply String.toList_injective
        simpa using htext
    next => cases h
  · rintro ⟨ruleSet, rule, rfl, rfl, hcolon, hset, hrule⟩
    have hcut : Text.cutAt? (· == ':') (ruleSet ++ ":" ++ rule).toList =
        some (ruleSet.toList, rule.toList) :=
      Text.cutAt?_eq_some_iff.mpr ⟨by simp, hcolon⟩
    simp only [parse, hcut]
    simp [hset, hrule]

/-! ### The instances of a provider -/

namespace Provider

theorem of_bind {p : Provider} {info : RuleInfo} {key : String} {setScope : Config}
    {setActive allRules : Bool} {i : RuleInstance}
    (h : p.bind info key setScope setActive allRules = .ok i) :
    i.descriptor.ruleSetId = p.id ∧ i.descriptor.ruleId = key ∧
      (allRules = true → i.descriptor.activation = .forced) := by
  obtain ⟨activation, hactivation, h⟩ := Success.of_bind h
  obtain ⟨severity, -, h⟩ := Success.of_bind h
  obtain ⟨aliases, -, h⟩ := Success.of_bind h
  obtain ⟨rule, -, h⟩ := Success.of_bind h
  obtain ⟨filter, -, h⟩ := Success.of_bind h
  obtain ⟨resolver, -, h⟩ := Success.of_bind h
  obtain rfl := Except.ok.inj h
  refine ⟨rfl, rfl, fun hall => ?_⟩
  simp only [activationOf, hall, if_true] at hactivation
  exact (Except.ok.inj hactivation).symm

theorem of_instantiate {p : Provider} {config : Config} {allRules : Bool} {set : RuleSet}
    (h : p.instantiate config allRules = .ok set) :
    set.id = p.id ∧
      set.rules.map (·.descriptor.ruleId) = p.instanceKeys (config.sub p.id) ∧
      ∀ i ∈ set.rules, i.descriptor.ruleSetId = p.id ∧
        (allRules = true → i.descriptor.activation = .forced) := by
  obtain ⟨setActive, -, h⟩ := Success.of_bind h
  obtain ⟨rules, hrules, h⟩ := Success.of_bind h
  obtain ⟨filter, -, h⟩ := Success.of_bind h
  obtain rfl := Except.ok.inj h
  refine ⟨rfl, ?_, ?_⟩
  · have hkeys : (rules.map (·.descriptor.ruleId)) =
        (p.rules.map (fun info => (info.id, info)) ++ p.customKeys (config.sub p.id)).map (·.1) := by
      rw [← List.forall₂_eq_eq_eq, List.forall₂_map_left_iff, List.forall₂_map_right_iff]
      exact ((Success.forall₂_of_mapM hrules).imp fun _ _ hbind => (of_bind hbind).2.1).flip
    rw [instanceKeys, hkeys, List.map_append, List.map_map]
    rfl
  · intro i hi
    obtain ⟨⟨key, info⟩, -, hbind⟩ := Success.exists_of_mem_mapM hrules hi
    obtain ⟨hset, -, hforced⟩ := of_bind hbind
    exact ⟨hset, hforced⟩

end Provider

def RuleSet.only (s : RuleSet) (rule : String) : RuleSet :=
  { s with rules := s.rules.filter fun i => i.descriptor.ruleId == rule }

namespace Provider

theorem length_only {p : Provider} {config : Config} {allRules : Bool} {set : RuleSet}
    (h : p.instantiate config allRules = .ok set) (rule : String) :
    (set.only rule).rules.length = (p.instanceKeys (config.sub p.id)).count rule := by
  rw [← (of_instantiate h).2.1, RuleSet.only, ← List.countP_eq_length_filter, List.count,
    List.countP_map]
  rfl

/-- The name of an instance reads back as its rule set and its key, and stands for it alone. -/
structure Nameable (p : Provider) (setScope : Config) (key : String) : Prop where
  plain : ':' ∉ p.id.toList
  named : key ≠ ""
  /-- What comes before a slash is a rule, and a rule that is itself named with a slash is not also
  a key that adds an instance. -/
  based : ∀ base, customBase? key = some base → (p.rule? base).isSome = true ∧
    ((p.rule? key).isSome = true → key ∉ setScope.keys)

theorem rule?_isSome_of_mem_instanceKeys {p : Provider} {setScope : Config} {key : String}
    (hkey : key ∈ p.instanceKeys setScope) (hbase : customBase? key = none) :
    (p.rule? key).isSome = true ∧ key ∉ (p.customKeys setScope).map (·.1) := by
  have hadded : key ∉ (p.customKeys setScope).map (·.1) := by
    rw [List.mem_map]
    rintro ⟨⟨_, info⟩, hmem, rfl⟩
    have hinfo := (mem_customKeys.mp hmem).2
    rw [hbase] at hinfo
    cases hinfo
  refine ⟨?_, hadded⟩
  rw [rule?_isSome_iff]
  exact (List.mem_append.mp hkey).resolve_right hadded

/-- Where what comes before a slash is a rule, a name is shared exactly by a rule and a key. -/
theorem shared_iff {p : Provider} {setScope : Config} {key base : String}
    (hbase : customBase? key = some base) (hrule : (p.rule? base).isSome = true) :
    (key ∈ p.rules.map (·.id) ∧ key ∈ (p.customKeys setScope).map (·.1)) ↔
      (p.rule? key).isSome = true ∧ key ∈ setScope.keys := by
  rw [← rule?_isSome_iff, List.mem_map]
  refine and_congr_right fun _ => ⟨?_, fun hkey => ?_⟩
  · rintro ⟨⟨_, info⟩, hadded, rfl⟩
    exact (mem_customKeys.mp hadded).1
  · obtain ⟨info, hinfo⟩ := Option.isSome_iff_exists.mp hrule
    refine ⟨(key, info), mem_customKeys.mpr ⟨hkey, ?_⟩, rfl⟩
    rw [hbase]
    exact hinfo

/-- Of an instance's name, the rule is known and nothing else has it. -/
theorem known_and_alone_iff {p : Provider} {setScope : Config} {key : String}
    (hrules : (p.rules.map (·.id)).Nodup) (hroot : setScope.root.distinct = true)
    (hkey : key ∈ p.instanceKeys setScope) :
    ((p.rule? ((customBase? key).getD key)).isSome = true ∧
        (p.instanceKeys setScope).count key = 1) ↔
      ∀ base, customBase? key = some base → (p.rule? base).isSome = true ∧
        ((p.rule? key).isSome = true → key ∉ setScope.keys) := by
  rw [count_instanceKeys_eq_one_iff hrules hroot hkey]
  cases hbase : customBase? key with
  | none =>
    obtain ⟨hrule, hadded⟩ := rule?_isSome_of_mem_instanceKeys hkey hbase
    have hleft : (p.rule? key).isSome = true ∧
        ¬ (key ∈ p.rules.map (·.id) ∧ key ∈ (p.customKeys setScope).map (·.1)) :=
      ⟨hrule, fun hboth => hadded hboth.2⟩
    simpa using hleft
  | some base =>
    have hbased : (∀ base', some base = some base' → (p.rule? base').isSome = true ∧
        ((p.rule? key).isSome = true → key ∉ setScope.keys)) ↔ (p.rule? base).isSome = true ∧
        ((p.rule? key).isSome = true → key ∉ setScope.keys) := by simp
    rw [hbased, Option.getD_some]
    refine and_congr_right fun hrule => ?_
    rw [shared_iff hbase hrule, not_and]

/-- Where no name of a rule set or a rule holds a separator, every instance can be named. -/
theorem nameable_of_plain {p : Provider} {setScope : Config} {key : String}
    (hid : ':' ∉ p.id.toList) (hrules : ∀ info ∈ p.rules, info.id ≠ "" ∧ '/' ∉ info.id.toList)
    (hkey : key ∈ p.instanceKeys setScope) : p.Nameable setScope key := by
  have hplain : (p.rule? key).isSome = true → key ≠ "" ∧ '/' ∉ key.toList := by
    rw [rule?_isSome_iff, List.mem_map]
    rintro ⟨info, hinfo, rfl⟩
    exact hrules info hinfo
  rcases List.mem_append.mp hkey with hown | hadded
  · have hkey := hplain (rule?_isSome_iff.mpr hown)
    exact ⟨hid, hkey.1, fun base hbase => absurd (slash_of_customBase? hbase) hkey.2⟩
  · obtain ⟨⟨_, info⟩, hmem, rfl⟩ := List.mem_map.mp hadded
    obtain ⟨base, hbase, hinfo⟩ := Option.bind_eq_some_iff.mp (mem_customKeys.mp hmem).2
    have hslash := slash_of_customBase? hbase
    refine ⟨hid, ?_, fun base' hbase' => ?_⟩
    · rintro rfl
      cases hslash
    · obtain rfl := Option.some.inj (hbase.symm.trans hbase')
      exact ⟨by rw [hinfo]; rfl, fun hrule => absurd hslash (hplain hrule).2⟩

end Provider

namespace Registry

open Provider

/-- A rule set that can be built is cut down to one name, unless there is nothing left or what
comes before a slash in the name is no rule. -/
theorem buildSingle_eq {p : Provider} {config : Config} {set : RuleSet}
    (h : p.instantiate config true = .ok set) (rule : String) :
    buildSingle p rule config =
      if (p.rule? ((customBase? rule).getD rule)).isSome = true ∧ (set.only rule).rules ≠ [] then
        .ok (set.only rule)
      else .error (.unknownRule p.id rule) := by
  -- Every instance of the set is forced active already.
  have hsame : (set.only rule).rules.map (fun i : RuleInstance =>
      { i with descriptor := { i.descriptor with activation := .forced } }) =
      (set.only rule).rules := by
    conv_rhs => rw [← List.map_id (set.only rule).rules]
    apply List.map_congr_left
    intro i hi
    have hforced := ((of_instantiate h).2.2 i (List.mem_of_mem_filter hi)).2 rfl
    simp only [← hforced, id_eq]
  unfold buildSingle
  cases hrule : p.rule? ((customBase? rule).getD rule) with
  | none =>
    simp only [hrule]
    rfl
  | some info =>
    simp only [hrule, h, Option.isNone_some]
    cases honly : (set.only rule).rules with
    | nil =>
      have hnone : set.rules.filter (fun i => i.descriptor.ruleId == rule) = [] := honly
      change (if (set.rules.filter fun i => i.descriptor.ruleId == rule).isEmpty = true then _
        else _) = _
      rw [hnone]
      rfl
    | cons i rest =>
      have hsome : set.rules.filter (fun i => i.descriptor.ruleId == rule) = i :: rest := honly
      change (if (set.rules.filter fun i => i.descriptor.ruleId == rule).isEmpty = true then _
        else Except.ok ({ set with rules := (set.only rule).rules.map _ } : RuleSet)) = _
      rw [hsame, hsome]
      rfl

theorem mem_providers_of_discover {r : Registry} {d : Discovery} {p : Provider}
    (h : p ∈ r.discover d) : p ∈ r.providers :=
  List.mem_of_mem_filter h

theorem find?_id {ps : List Provider} (hids : (ps.map (·.id)).Nodup) {p : Provider} (hp : p ∈ ps) :
    ps.find? (fun q => q.id == p.id) = some p := by
  obtain ⟨q, hq⟩ : ∃ q, ps.find? (fun q => q.id == p.id) = some q := by
    rw [← Option.isSome_iff_exists, List.find?_isSome]
    exact ⟨p, hp, by simp⟩
  have hid : q.id = p.id := by simpa using List.find?_some hq
  rw [hq, List.inj_on_of_nodup_map hids (List.mem_of_find?_eq_some hq) hp hid]

theorem build_single {r : Registry} {config : Config} {d : Discovery} {sets : List RuleSet}
    (h : r.build config d .all true = .ok sets) (ruleSet rule : String) (allRules : Bool) :
    r.build config d (.single ruleSet rule) allRules = .error (.unknownRuleSet ruleSet) ∨
      ∃ p ∈ r.discover d, ∃ set ∈ sets, p.id = ruleSet ∧ p.instantiate config true = .ok set ∧
        r.build config d (.single ruleSet rule) allRules =
          if (p.rule? ((customBase? rule).getD rule)).isSome = true ∧
            (set.only rule).rules ≠ [] then .ok [set.only rule]
          else .error (.unknownRule ruleSet rule) := by
  unfold build
  dsimp only
  cases hfind : (r.discover d).find? fun p => p.id == ruleSet with
  | none => exact .inl rfl
  | some p =>
    have hp := List.mem_of_find?_eq_some hfind
    have hid : p.id = ruleSet := by simpa using List.find?_some hfind
    obtain ⟨set, hset, hbuilt⟩ := Success.exists_mem_of_mapM h hp
    refine .inr ⟨p, hp, set, hset, hid, hbuilt, ?_⟩
    dsimp only
    rw [buildSingle_eq hbuilt, ← hid]
    split <;> rfl

/-- The printed name of an instance reads as a restriction that builds just one instance, which is
described as that one is and forced active. -/
def RunsAlone (r : Registry) (config : Config) (d : Discovery) (allRules : Bool)
    (descriptor : Descriptor) : Prop :=
  ∃ restriction set i, Restriction.parse descriptor.qualifiedId = .ok restriction ∧
    r.build config d restriction allRules = .ok [set] ∧ set.rules = [i] ∧
    i.descriptor = descriptor ∧ i.descriptor.activation = .forced

theorem runsAlone_iff {r : Registry} (hids : (r.providers.map (·.id)).Nodup) {config : Config}
    {d : Discovery} {sets : List RuleSet} (h : r.build config d .all true = .ok sets)
    {p : Provider} (hp : p ∈ r.discover d) {set : RuleSet}
    (hset : p.instantiate config true = .ok set) {i : RuleInstance} (hi : i ∈ set.rules)
    (allRules : Bool) :
    r.RunsAlone config d allRules i.descriptor ↔
      (':' ∉ p.id.toList ∧ p.id ≠ "" ∧ i.descriptor.ruleId ≠ "") ∧
        (p.rule? ((customBase? i.descriptor.ruleId).getD i.descriptor.ruleId)).isSome = true ∧
        (p.instanceKeys (config.sub p.id)).count i.descriptor.ruleId = 1 := by
  have hdiscovered : ((r.discover d).map (·.id)).Nodup := hids.sublist (List.filter_sublist.map _)
  obtain ⟨-, -, hinstances⟩ := of_instantiate hset
  have hsetId := (hinstances i hi).1
  rw [← length_only hset]
  constructor
  · rintro ⟨restriction, alone, j, hparse, hbuild, halone, hj, -⟩
    obtain ⟨ruleSet, rule, rfl, htext, hcolon, hruleSet, hrule⟩ :=
      Restriction.parse_eq_ok_iff.mp hparse
    obtain herror | ⟨q, hq, set', -, hqid, hset', hq'⟩ := build_single h ruleSet rule allRules
    · cases herror.symm.trans hbuild
    rw [hbuild] at hq'
    split at hq'
    next hknown =>
      obtain rfl : alone = set'.only rule := by simpa using hq'
      have hmem : j ∈ (set'.only rule).rules := by simp [halone]
      have hname : j.descriptor.ruleId = rule := by simpa using List.of_mem_filter hmem
      have hset'Id := ((of_instantiate hset').2.2 j (List.mem_of_mem_filter hmem)).1
      -- The restriction is made of the names of the rule set and the instance.
      obtain rfl : i.descriptor.ruleId = rule := by rw [← hname, hj]
      have hqp : q.id = p.id := by rw [← hset'Id, ← hsetId, hj]
      obtain rfl := List.inj_on_of_nodup_map hdiscovered hq hp hqp
      obtain rfl := Except.ok.inj (hset'.symm.trans hset)
      rw [← hqid] at hcolon hruleSet
      exact ⟨⟨hcolon, hruleSet, hrule⟩, hknown.1, by rw [halone]; rfl⟩
    next => cases hq'
  · rintro ⟨⟨hcolon, hid, hrule⟩, hknown, hone⟩
    obtain ⟨j, hj⟩ := List.length_eq_one_iff.mp hone
    have hmem : i ∈ (set.only i.descriptor.ruleId).rules := by simp [RuleSet.only, hi]
    obtain rfl : i = j := by simpa [hj] using hmem
    have hparse : Restriction.parse i.descriptor.qualifiedId =
        .ok (.single p.id i.descriptor.ruleId) := by
      apply Restriction.parse_eq_ok_iff.mpr
      refine ⟨_, _, rfl, ?_, hcolon, hid, hrule⟩
      rw [Descriptor.qualifiedId, hsetId]
    refine ⟨_, set.only i.descriptor.ruleId, i, hparse, ?_, hj, rfl, (hinstances i hi).2 rfl⟩
    unfold build
    simp only [find?_id hdiscovered hp, buildSingle_eq hset]
    rw [if_pos ⟨hknown, by simp [hj]⟩]
    rfl

/-- Where all the rule sets can be built, an instance can be run alone exactly when its printed name
reads back, and a restriction that names no instance is refused as unknown. -/
theorem instance_runs_alone_iff [PatternLanguage] {r : Registry} (hr : r.Stocked) {config : Config}
    (hconfig : config.root.distinct = true) {d : Discovery} {sets : List RuleSet}
    (h : r.build config d .all true = .ok sets) (allRules : Bool) :
    (∀ set ∈ sets, ∀ i ∈ set.rules, (r.RunsAlone config d allRules i.descriptor ↔
      ∃ p, r.provider? set.id = some p ∧ p.Nameable (config.sub p.id) i.descriptor.ruleId)) ∧
    ∀ ruleSet rule, (∀ set ∈ sets, ∀ i ∈ set.rules,
        ¬ (i.descriptor.ruleSetId = ruleSet ∧ i.descriptor.ruleId = rule)) →
      r.build config d (.single ruleSet rule) allRules = .error (.unknownRuleSet ruleSet) ∨
        r.build config d (.single ruleSet rule) allRules = .error (.unknownRule ruleSet rule) := by
  constructor
  · intro set hset i hi
    obtain ⟨p, hp, hbuilt⟩ := Success.exists_of_mem_mapM h hset
    obtain ⟨hid, hkeys, -⟩ := of_instantiate hbuilt
    have hknown := hr.known p (mem_providers_of_discover hp)
    have hkey : i.descriptor.ruleId ∈ p.instanceKeys (config.sub p.id) := by
      rw [← hkeys]
      exact List.mem_map_of_mem hi
    have hprovider : r.provider? set.id = some p := by
      rw [hid]
      exact find?_id hr.nodup_ids (mem_providers_of_discover hp)
    have hscope : (config.sub p.id).root.distinct = true := hconfig
    rw [runsAlone_iff hr.nodup_ids h hp hbuilt hi,
      known_and_alone_iff hknown.nodup_rules hscope hkey]
    constructor
    · rintro ⟨⟨hcolon, -, hne⟩, hbased⟩
      exact ⟨p, hprovider, hcolon, hne, hbased⟩
    · rintro ⟨q, hq, hnameable⟩
      obtain rfl := Option.some.inj (hq.symm.trans hprovider)
      exact ⟨⟨hnameable.plain, hknown.id_ne_empty, hnameable.named⟩, hnameable.based⟩
  · intro ruleSet rule hnone
    obtain herror | ⟨p, -, set, hset, hid, hbuilt, hbuild⟩ := build_single h ruleSet rule allRules
    · exact .inl herror
    refine .inr ?_
    -- There is no such instance among all, so none is left of the rule set.
    have hempty : (set.only rule).rules = [] := by
      apply List.filter_eq_nil_iff.mpr
      intro i hi hname
      refine hnone set hset i hi ⟨?_, by simpa using hname⟩
      rw [((of_instantiate hbuilt).2.2 i hi).1, hid]
    rw [hbuild, if_neg]
    exact fun hboth => hboth.2 hempty

/-- A manifest whose only rule is named with a slash. -/
def slashed : Manifest := { id := "s", rules := [{ id := "A/b", message := "m" }] }

/-- That rule is built with all the others and is unknown when it is asked for alone. -/
theorem slashed_rule_not_alone :
    ∃ r sets set i, Registry.Stocked r ∧ Config.empty.root.distinct = true ∧
      r.build Config.empty {} .all true = .ok sets ∧ set ∈ sets ∧ i ∈ set.rules ∧
      i.descriptor.qualifiedId = "s:A/b" ∧ ¬ r.RunsAlone Config.empty {} true i.descriptor := by
  have hr : Registry.Stocked _ :=
    .register .empty (@Provider.Known.declared _ slashed ⟨"s.json"⟩ _ rfl) rfl
  refine ⟨_, _, _, _, hr, rfl, rfl, List.mem_cons_self, List.mem_cons_self, rfl, ?_⟩
  rw [(instance_runs_alone_iff hr rfl rfl true).1 _ List.mem_cons_self _ List.mem_cons_self]
  rintro ⟨p, hp, hnameable⟩
  obtain rfl := Option.some.inj hp
  have hbased := (hnameable.based "A" rfl).1
  cases hbased

end Registry

end CodeAudit
