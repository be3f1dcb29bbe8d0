import CodeAudit.Proofs.Text.Trim
import CodeAudit.Suppression.Targets

namespace CodeAudit

/-! ### Reading an argument -/

namespace Marker

/-- There is nothing to take off: no white space at either end, and no tool prefix. -/
structure Plain (n : String) : Prop where
  front : n.toList.head?.all fun c => !Text.isBlank c
  back : n.toList.getLast?.all fun c => !Text.isBlank c
  unprefixed : ∀ p ∈ toolPrefixes, ¬ p.toList <+: n.toList

theorem Plain.trim_eq {n : String} (h : Plain n) : Text.trim n = n := by
  rw [Text.trim, Text.trimList_eq_self_iff.mpr ⟨h.front, h.back⟩, String.ofList_toList]

theorem length_of_mem_toolPrefixes : ∀ p ∈ toolPrefixes, p.toList.length = 6 := by decide +kernel

theorem solid_of_mem_toolPrefixes : ∀ p ∈ toolPrefixes, p.toList ≠ [] ∧
    (p.toList.head?.all fun c => !Text.isBlank c) ∧
      p.toList.getLast?.all fun c => !Text.isBlank c := by decide +kernel

theorem isPrefix_iff {p s : String} : p.toList <+: s.toList ↔ ∃ m, s = p ++ m := by
  constructor
  · rintro ⟨cs, hcs⟩
    refine ⟨String.ofList cs, ?_⟩
    rw [← String.toList_inj, String.toList_append, String.toList_ofList, hcs]
  · rintro ⟨m, rfl⟩
    exact ⟨m.toList, String.toList_append.symm⟩

theorem bareName_cases (argument : String) :
    (∃ p ∈ toolPrefixes, Text.trim argument = p ++ bareName argument) ∨
      (∀ p ∈ toolPrefixes, ¬ p.toList <+: (Text.trim argument).toList) ∧
        bareName argument = Text.trim argument := by
  have hbare : bareName argument = (toolPrefixes.findSome? fun p =>
      Text.stripLead? p (Text.trim argument)).getD (Text.trim argument) := rfl
  rw [hbare]
  cases h : toolPrefixes.findSome? fun p => Text.stripLead? p (Text.trim argument) with
  | some m =>
    obtain ⟨p, hp, hm⟩ := List.exists_of_findSome?_eq_some h
    exact .inl ⟨p, hp, Text.stripLead?_eq_some_iff.mp hm⟩
  | none =>
    refine .inr ⟨fun p hp hlead => ?_, rfl⟩
    obtain ⟨m, hm⟩ := isPrefix_iff.mp hlead
    have hnone := List.findSome?_eq_none_iff.mp h p hp
    rw [Text.stripLead?_eq_some_iff.mpr hm] at hnone
    cases hnone

theorem bareName_append {p : String} (hp : p ∈ toolPrefixes) (n : String) :
    bareName (p ++ n) = Text.trimEnd n := by
  obtain ⟨hne, hsolid⟩ := solid_of_mem_toolPrefixes p hp
  have htrim : Text.trim (p ++ n) = p ++ Text.trimEnd n := by
    rw [Text.trim, String.toList_append, Text.trimList_append_of_solid hne hsolid,
      String.ofList_append, String.ofList_toList, Text.trimEnd]
  rcases bareName_cases (p ++ n) with ⟨q, hq, hlead⟩ | ⟨hnone, -⟩
  · -- Both prefixes fit the trimmed argument, so they are the same.
    rw [htrim, ← String.toList_inj, String.toList_append, String.toList_append] at hlead
    have hlength := (length_of_mem_toolPrefixes p hp).trans (length_of_mem_toolPrefixes q hq).symm
    exact (String.toList_inj.mp (List.append_inj hlead hlength).2).symm
  · exact absurd (isPrefix_iff.mpr ⟨_, htrim⟩) (hnone p hp)

theorem bareName_eq_self_iff {n : String} : bareName n = n ↔ Plain n := by
  constructor
  · intro h
    rcases bareName_cases n with ⟨p, hp, hlead⟩ | ⟨hnone, hbare⟩
    · -- An argument that loses a prefix cannot be as long as before.
      have hlength := congrArg (fun s => s.toList.length) hlead
      have hle := Text.length_trimList_le Text.isBlank n.toList
      simp only [Text.trim, String.toList_ofList, String.toList_append, List.length_append,
        length_of_mem_toolPrefixes p hp, h] at hlength
      omega
    · have htrim : Text.trim n = n := hbare.symm.trans h
      rw [htrim] at hnone
      have hends : Text.trimList Text.isBlank n.toList = n.toList := by
        rw [← String.toList_ofList (l := Text.trimList Text.isBlank n.toList)]
        exact congrArg String.toList htrim
      obtain ⟨hfront, hback⟩ := Text.trimList_eq_self_iff.mp hends
      exact ⟨hfront, hback, hnone⟩
  · intro h
    rcases bareName_cases n with ⟨p, hp, hlead⟩ | ⟨-, hbare⟩
    · rw [h.trim_eq] at hlead
      exact absurd (isPrefix_iff.mpr ⟨_, hlead⟩) (h.unprefixed p hp)
    · rw [hbare, h.trim_eq]

end Marker

/-! ### The names of a rule -/

namespace Descriptor

/-- The names of a rule instance: its own and its rule set's, both together in two spellings, for an
instance that the configuration adds also those of the rule it comes from, and its aliases. -/
inductive HasName (d : Descriptor) : String → Prop
  | rule : HasName d d.ruleId
  | ruleSet : HasName d d.ruleSetId
  | dotted : HasName d (d.ruleSetId ++ "." ++ d.ruleId)
  | colon : HasName d (d.ruleSetId ++ ":" ++ d.ruleId)
  | base (h : d.isCustom = true) : HasName d d.baseId
  | dottedBase (h : d.isCustom = true) : HasName d (d.ruleSetId ++ "." ++ d.baseId)
  | colonBase (h : d.isCustom = true) : HasName d (d.ruleSetId ++ ":" ++ d.baseId)
  | byAlias {name : String} (h : name ∈ d.aliases) : HasName d name

/-- What a rule answers to: its names, and `all` in any case. -/
def AnswersTo (d : Descriptor) (s : String) : Prop :=
  Text.sameAsciiFold s "all" = true ∨ d.HasName s

end Descriptor

namespace MarkerTargets

theorem mem_names_ofRule {d : Descriptor} {n : String} : n ∈ (ofRule d).names ↔ d.HasName n := by
  constructor
  · intro h
    simp only [ofRule, namesOf, List.append_assoc, List.mem_append, List.mem_cons,
      List.not_mem_nil, or_false] at h
    rcases h with (rfl | rfl) | (rfl | rfl) | h | h
    · exact .rule
    · exact .ruleSet
    · exact .dotted
    · exact .colon
    · split at h
      next hcustom =>
        simp only [List.mem_cons, List.not_mem_nil, or_false] at h
        rcases h with rfl | rfl | rfl
        · exact .base hcustom
        · exact .dottedBase hcustom
        · exact .colonBase hcustom
      next => cases h
    · exact .byAlias h
  · intro h
    cases h with
    | base h => simp [ofRule, namesOf, h]
    | dottedBase h => simp [ofRule, namesOf, h]
    | colonBase h => simp [ofRule, namesOf, h]
    | byAlias h => simp [ofRule, h]
    | _ => simp [ofRule, namesOf]

theorem matchedBy_ofRule_iff {d : Descriptor} {argument : String} :
    (ofRule d).matchedBy argument = true ↔ d.AnswersTo (Marker.bareName argument) := by
  rw [matchedBy, Bool.or_eq_true, List.contains_iff_mem, mem_names_ofRule]
  rfl

theorem matchedBy_iff_of_hasName {d : Descriptor} {n argument : String} (hn : d.HasName n) :
    (ofRule d).matchedBy argument = true ↔
      Marker.bareName argument = n ∨
        Marker.bareName argument ≠ n ∧ d.AnswersTo (Marker.bareName argument) := by
  rw [matchedBy_ofRule_iff]
  by_cases h : Marker.bareName argument = n
  · simp [h, Descriptor.AnswersTo, hn]
  · simp [h]

end MarkerTargets

/-- A name of a rule that is given as a marker argument addresses the rule exactly when nothing is
taken off it, or what is left of it is `all` or another name of the rule. Behind a tool prefix only
white space at its end is taken off. -/
theorem name_addresses_rule_iff {d : Descriptor} {n : String} (hn : d.HasName n) :
    ((MarkerTargets.ofRule d).matchedBy n = true ↔
      Marker.Plain n ∨ Marker.bareName n ≠ n ∧ d.AnswersTo (Marker.bareName n)) ∧
    ∀ p ∈ Marker.toolPrefixes,
      ((MarkerTargets.ofRule d).matchedBy (p ++ n) = true ↔
        (n.toList.getLast?.all fun c => !Text.isBlank c) = true ∨
          Text.trimEnd n ≠ n ∧ d.AnswersTo (Text.trimEnd n)) := by
  constructor
  · rw [MarkerTargets.matchedBy_iff_of_hasName hn, Marker.bareName_eq_self_iff]
  · intro p hp
    rw [MarkerTargets.matchedBy_iff_of_hasName hn, Marker.bareName_append hp,
      Text.trimEnd_eq_self_iff]

/-! ### An alias that looks like a prefixed name -/

/-- A rule known by a name from before, with the tool's own prefix, and by one with a blank. -/
def renamedRule : Descriptor :=
  { ruleSetId := "complexity", ruleId := "LongMethod", baseId := "LongMethod",
    aliases := ["frost:legacy", "old "] }

/-- The first alias addresses the rule behind any tool prefix but not alone, because the prefix it
has itself is taken off; the second one does neither. -/
theorem prefixed_alias_unheard :
    renamedRule.HasName "frost:legacy" ∧
    (MarkerTargets.ofRule renamedRule).matchedBy "frost:legacy" = false ∧
    ¬ Marker.Plain "frost:legacy" ∧
    (∀ p ∈ Marker.toolPrefixes,
      (MarkerTargets.ofRule renamedRule).matchedBy (p ++ "frost:legacy") = true) ∧
    renamedRule.HasName "old " ∧
    (MarkerTargets.ofRule renamedRule).matchedBy "old " = false ∧
    ∀ p ∈ Marker.toolPrefixes,
      (MarkerTargets.ofRule renamedRule).matchedBy (p ++ "old ") = false := by
  have hlegacy : renamedRule.HasName "frost:legacy" := .byAlias (by decide)
  have halone : (MarkerTargets.ofRule renamedRule).matchedBy "frost:legacy" = false := by
    decide +kernel
  obtain ⟨hiff, hbehind⟩ := name_addresses_rule_iff hlegacy
  refine ⟨hlegacy, halone, fun hplain => ?_, fun p hp => (hbehind p hp).mpr (.inl ?_),
    .byAlias (by decide), by decide +kernel, by decide +kernel⟩
  · rw [hiff.mpr (.inl hplain)] at halone
    cases halone
  · decide +kernel

end CodeAudit
