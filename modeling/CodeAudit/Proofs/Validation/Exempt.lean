import CodeAudit.Proofs.Provider.Reads
import CodeAudit.Proofs.Regex.Match
import CodeAudit.Proofs.Success
import CodeAudit.Regex.Language
import CodeAudit.Validation.Problem

namespace CodeAudit

namespace Regex

def anything : Regex := star (set (CharSet.complement [(10, 10)]))

theorem contains_of_ne_newline {c : Char} (h : c ≠ '\n') :
    (CharSet.complement [(10, 10)]).contains c = true := by
  have hranges : CharSet.complement [(10, 10)] = [(0, 9), (11, 0x10FFFF)] := by
    simp [CharSet.complement, CharSet.sorted, CharSet.gaps, CharSet.top]
  have hvalid : c.toNat ≤ 0x10FFFF := by
    rcases c.valid with hlow | ⟨-, hhigh⟩
    · have hlow : c.toNat < 0xD800 := hlow
      omega
    · have hhigh : c.toNat < 0x110000 := hhigh
      omega
  have hne : c.toNat ≠ 10 := fun heq => h (Char.toNat_inj.mp heq)
  rw [hranges]
  simp only [CharSet.contains, List.any_cons, List.any_nil, Bool.or_false, Bool.or_eq_true,
    Bool.and_eq_true, decide_eq_true_eq]
  omega

theorem consume_anything {v : List Char} (h : '\n' ∉ v) : Consume [anything] v :=
  consume_star_set fun _ hc => contains_of_ne_newline fun heq => h (heq ▸ hc)

end Regex

namespace Exemptions

open Regex Provider

/-! ### Patterns -/

theorem setPattern_mem : ∀ key ∈ setKeys, ".*>" ++ key ∈ defaultPatterns := by decide

theorem rulePattern_mem : ∀ key ∈ ruleKeys, ".*>.*>" ++ key ∈ defaultPatterns := by decide

section

variable [PatternLanguage]

def Compiles (pattern : String) : Prop :=
  ∃ covers, PatternLanguage.compileWhole pattern = .ok covers

theorem compiles_of_isSome {pattern : String}
    (h : (PatternLanguage.compileWhole pattern).toOption.isSome = true) : Compiles pattern := by
  obtain ⟨covers, hcovers⟩ := Option.isSome_iff_exists.mp h
  exact ⟨covers, Success.of_toOption hcovers⟩

/-- A default pattern or one of the given ones matches a key path. -/
def Covered (further keys : List String) : Prop :=
  ∃ pattern ∈ defaultPatterns ++ further, ∃ covers,
    PatternLanguage.compileWhole pattern = .ok covers ∧
      covers (Config.keySeparator.intercalate keys) = true

theorem Covered.append {further keys : List String} (h : Covered further keys)
    (more : List String) : Covered (further ++ more) keys := by
  obtain ⟨pattern, hpattern, hcovers⟩ := h
  exact ⟨pattern, List.append_assoc .. ▸ List.mem_append_left more hpattern, hcovers⟩

def read (pattern : String) : Except ConfigError (String → Bool) :=
  (PatternLanguage.compileWhole pattern).mapError fun detail =>
    .invalid ("Invalid validation exclude pattern '" ++ pattern ++ "': " ++ detail)

theorem read_eq_ok_iff {pattern : String} {covers : String → Bool} :
    read pattern = .ok covers ↔ PatternLanguage.compileWhole pattern = .ok covers := by
  constructor
  · exact Success.of_mapError
  · intro h
    rw [read, h]
    rfl

theorem ofPatterns_eq (further : List String) :
    ofPatterns further = ((defaultPatterns ++ further).mapM read).map Exemptions.mk := by
  unfold ofPatterns
  change (defaultPatterns ++ further).mapM read >>= _ = _
  cases (defaultPatterns ++ further).mapM read <;> rfl

theorem admits_iff_covered {further : List String} {x : Exemptions}
    (hx : ofPatterns further = .ok x) {keys : List String} :
    x.admits keys = true ↔ Covered further keys := by
  rw [ofPatterns_eq] at hx
  obtain ⟨patterns, hpatterns, rfl⟩ := Success.of_map hx
  constructor
  · intro h
    obtain ⟨covers, hcovers, hmatches⟩ := List.any_eq_true.mp h
    obtain ⟨pattern, hpattern, hread⟩ := Success.exists_of_mem_mapM hpatterns hcovers
    exact ⟨pattern, hpattern, covers, read_eq_ok_iff.mp hread, hmatches⟩
  · rintro ⟨pattern, hpattern, covers, hcompiled, hmatches⟩
    obtain ⟨covers', hcovers', hread⟩ := Success.exists_mem_of_mapM hpatterns hpattern
    obtain rfl := Except.ok.inj (hcompiled.symm.trans (read_eq_ok_iff.mp hread))
    exact List.any_eq_true.mpr ⟨covers, hcovers', hmatches⟩

theorem compiles_of_ofPatterns {further : List String} {x : Exemptions}
    (hx : ofPatterns further = .ok x) :
    ∀ pattern ∈ defaultPatterns ++ further, Compiles pattern := by
  rw [ofPatterns_eq] at hx
  obtain ⟨patterns, hpatterns, -⟩ := Success.of_map hx
  intro pattern hpattern
  obtain ⟨covers, -, hread⟩ := Success.exists_mem_of_mapM hpatterns hpattern
  exact ⟨covers, read_eq_ok_iff.mp hread⟩

theorem exists_ofPatterns {further : List String}
    (h : ∀ pattern ∈ defaultPatterns ++ further, Compiles pattern) :
    ∃ x, ofPatterns further = .ok x := by
  have hread : ∀ pattern ∈ defaultPatterns ++ further, ∃ covers, read pattern = .ok covers :=
    fun pattern hpattern => (h pattern hpattern).imp fun _ => read_eq_ok_iff.mpr
  obtain ⟨patterns, hpatterns⟩ := Success.exists_mapM hread
  exact ⟨⟨patterns⟩, by rw [ofPatterns_eq, hpatterns]; rfl⟩

theorem exists_malformed (hdefaults : ∀ pattern ∈ defaultPatterns, Compiles pattern)
    {further : List String} {e : ConfigError} (h : ofPatterns further = .error e) :
    ∃ pattern ∈ further, ¬ Compiles pattern := by
  by_contra hnone
  simp only [not_exists, not_and, not_not] at hnone
  obtain ⟨x, hx⟩ := exists_ofPatterns (List.forall_mem_append.mpr ⟨hdefaults, hnone⟩)
  cases hx.symm.trans h

theorem ofPatterns_append_of_error {further : List String} {e : ConfigError}
    (h : ofPatterns further = .error e) (more : List String) :
    ofPatterns (further ++ more) = .error e := by
  rw [ofPatterns_eq] at h
  rw [ofPatterns_eq, ← List.append_assoc]
  cases hread : (defaultPatterns ++ further).mapM read with
  | error e' =>
    rw [hread] at h
    rw [Success.mapM_append_of_error hread, ← h]
  | ok patterns =>
    rw [hread] at h
    cases h

theorem exists_ofPatterns_append {further more : List String} {x : Exemptions}
    (hx : ofPatterns further = .ok x) (hmore : ∀ pattern ∈ more, Compiles pattern) :
    ∃ x', ofPatterns (further ++ more) = .ok x' := by
  apply exists_ofPatterns
  rw [← List.append_assoc]
  exact List.forall_mem_append.mpr ⟨compiles_of_ofPatterns hx, hmore⟩

/-! ### Keys that are always exempt -/

/-- What a language is relied on for. The default patterns belong to it; in them `.*` matches any
text within a line, and the other characters match themselves. -/
structure ReadsDefaults : Prop where
  compiles : ∀ pattern ∈ defaultPatterns, Compiles pattern
  setKey : ∀ key ∈ setKeys, ∀ covers, PatternLanguage.compileWhole (".*>" ++ key) = .ok covers →
    ∀ ruleSet : String, '\n' ∉ ruleSet.toList → covers (ruleSet ++ ">" ++ key) = true
  ruleKey : ∀ key ∈ ruleKeys, ∀ covers,
    PatternLanguage.compileWhole (".*>.*>" ++ key) = .ok covers →
      ∀ ruleSet rule : String, '\n' ∉ ruleSet.toList → '\n' ∉ rule.toList →
        covers (ruleSet ++ ">" ++ rule ++ ">" ++ key) = true

variable (hlang : ReadsDefaults) {further : List String} {x : Exemptions}
  (hx : ofPatterns further = .ok x)

include hlang hx

theorem admits_setKey {ruleSet key : String} (hkey : key ∈ setKeys)
    (hline : '\n' ∉ ruleSet.toList) : x.admits [ruleSet, key] = true := by
  obtain ⟨covers, hcovers⟩ := hlang.compiles _ (setPattern_mem key hkey)
  exact (admits_iff_covered hx).mpr ⟨_, List.mem_append_left _ (setPattern_mem key hkey), covers,
    hcovers, hlang.setKey key hkey covers hcovers ruleSet hline⟩

theorem admits_ruleKey {ruleSet rule key : String} (hkey : key ∈ ruleKeys)
    (hset : '\n' ∉ ruleSet.toList) (hrule : '\n' ∉ rule.toList) :
    x.admits [ruleSet, rule, key] = true := by
  obtain ⟨covers, hcovers⟩ := hlang.compiles _ (rulePattern_mem key hkey)
  exact (admits_iff_covered hx).mpr ⟨_, List.mem_append_left _ (rulePattern_mem key hkey), covers,
    hcovers, hlang.ruleKey key hkey covers hcovers ruleSet rule hset hrule⟩

end

/-! ### The language the program runs with -/

theorem parse_setKey : ∀ key ∈ setKeys, PatternLanguage.compileWhole (".*>" ++ key) =
    .ok (whole (anything :: (">" ++ key).toList.map char)).matchesIn := by
  simp only [setKeys, List.forall_mem_cons, List.not_mem_nil, false_implies, implies_true]
  exact ⟨by rfl, by rfl, by rfl, trivial⟩

theorem parse_ruleKey : ∀ key ∈ ruleKeys, PatternLanguage.compileWhole (".*>.*>" ++ key) =
    .ok (whole (anything :: char '>' :: anything :: (">" ++ key).toList.map char)).matchesIn := by
  simp only [ruleKeys, List.forall_mem_cons, List.not_mem_nil, false_implies, implies_true]
  exact ⟨by rfl, by rfl, by rfl, by rfl, by rfl, by rfl, by rfl, trivial⟩

theorem readsDefaults_regex : ReadsDefaults where
  compiles := by
    have hall : ∀ pattern ∈ defaultPatterns,
        (PatternLanguage.compileWhole pattern).toOption.isSome = true := by decide +kernel
    exact fun pattern hpattern => compiles_of_isSome (hall pattern hpattern)
  setKey key hkey covers hcovers ruleSet hline := by
    obtain rfl := Except.ok.inj ((parse_setKey key hkey).symm.trans hcovers)
    apply matchesIn_whole
    rw [show (ruleSet ++ ">" ++ key).toList = ruleSet.toList ++ (">" ++ key).toList by simp]
    exact (consume_anything hline).append (consume_chars _)
  ruleKey key hkey covers hcovers ruleSet rule hset hrule := by
    obtain rfl := Except.ok.inj ((parse_ruleKey key hkey).symm.trans hcovers)
    have htext : (ruleSet ++ ">" ++ rule ++ ">" ++ key).toList =
        ruleSet.toList ++ (['>'] ++ (rule.toList ++ (">" ++ key).toList)) := by simp
    apply matchesIn_whole
    rw [htext]
    exact (consume_anything hset).append
      ((consume_char '>').append ((consume_anything hrule).append (consume_chars _)))

end Exemptions

end CodeAudit
