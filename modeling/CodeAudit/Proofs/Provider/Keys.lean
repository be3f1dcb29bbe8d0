import CodeAudit.Proofs.Text.Pieces
import CodeAudit.Proofs.Value.Merge
import CodeAudit.Provider.Basic
import Mathlib.Data.List.Nodup

namespace CodeAudit

/-! ### Numbers are written without a slash -/

namespace Number

/-- No character of the text is a slash. -/
def Slashless (s : String) : Prop := '/' ∉ s.toList

instance (s : String) : Decidable (Slashless s) := inferInstanceAs (Decidable ('/' ∉ s.toList))

theorem Slashless.append {s t : String} (hs : Slashless s) (ht : Slashless t) :
    Slashless (s ++ t) := by
  unfold Slashless at *
  simp [hs, ht]

theorem slashless_ofList {cs : List Char} (h : ∀ c ∈ cs, c ≠ '/') : Slashless (String.ofList cs) := by
  unfold Slashless
  rw [String.toList_ofList]
  exact fun hmem => h _ hmem rfl

theorem ne_slash_of_mem_digits {n : Nat} {c : Char} (h : c ∈ Nat.toDigits 10 n) : c ≠ '/' := by
  rintro rfl
  cases Nat.isDigit_of_mem_toDigits (by decide) (by decide) h

theorem slashless_nat (n : Nat) : Slashless (toString n) := by
  rw [Nat.toString_eq_repr, Nat.repr_eq_ofList_toDigits]
  exact slashless_ofList fun c => ne_slash_of_mem_digits

theorem slashless_int (i : Int) : Slashless (toString i) := by
  cases i with
  | ofNat n => exact slashless_nat n
  | negSucc n => exact Slashless.append (s := "-") (by decide) (slashless_nat (n + 1))

theorem slashless_decimal (d : Decimal) : Slashless d.text := by
  have hdigits : ∀ c ∈ Nat.toDigits 10 d.digits, c ≠ '/' := fun c => ne_slash_of_mem_digits
  unfold Decimal.text
  generalize Nat.toDigits 10 d.digits = digits at *
  dsimp only
  have hzeros : ∀ n, ∀ c ∈ List.replicate n '0', c ≠ '/' := by
    intro n c hc
    rw [List.eq_of_mem_replicate hc]
    decide
  -- Every form that a decimal is printed in is put together from digits, zeros and signs.
  split
  · refine (slashless_ofList fun c hc => ?_).append (by decide)
    exact (List.mem_append.mp hc).elim (hdigits c) (hzeros _ c)
  split
  · refine ((slashless_ofList fun c hc => ?_).append (by decide)).append
      (slashless_ofList fun c hc => ?_)
    · exact hdigits c (List.mem_of_mem_take hc)
    · exact hdigits c (List.mem_of_mem_drop hc)
  split
  · refine Slashless.append (s := "0.") (by decide) (slashless_ofList fun c hc => ?_)
    exact (List.mem_append.mp hc).elim (hzeros _ c) (hdigits c)
  split
  · decide
  · exact ((slashless_ofList hdigits).append (by decide)).append (slashless_int _)
  next c rest _ =>
    refine ((slashless_ofList ?_).append (by decide)).append (slashless_int _)
    intro c' hc'
    rcases List.mem_cons.mp hc' with rfl | hc'
    · exact hdigits _ (by simp)
    rcases List.mem_cons.mp hc' with rfl | hc'
    · decide
    · exact hdigits _ (by simp [hc'])

theorem slashless_binary64 (x : Binary64) : Slashless x.text := by
  have hsign : Slashless (if x.negative then "-" else "") := by
    split
    · decide
    · decide
  unfold Binary64.text
  split
  · decide
  dsimp only
  split
  · exact hsign.append (by decide)
  split
  · exact hsign.append (by decide)
  · exact hsign.append (slashless_decimal _)

end Number

open Number in
theorem Value.eq_string_of_slash {v : Value} {key : String} (h : v.scalarText? = some key)
    (hslash : '/' ∈ key.toList) : v = .string key := by
  cases v with
  | string s => rw [Option.some.inj h]
  | bool b =>
    obtain rfl := Option.some.inj h
    cases b <;> simp at hslash
  | number n =>
    obtain rfl := Option.some.inj h
    cases n with
    | int i => exact absurd hslash (slashless_int i)
    | float x => exact absurd hslash (slashless_binary64 x)
  | _ => cases h

/-! ### Values without repeated keys -/

namespace Value

theorem distinct_entries {v : Value} {entries : List (Value × Value)} (hv : v.distinct = true)
    (h : v.entries? = some entries) : distinctEntries entries = true := by
  induction v using entries?.induct with
  | case1 es =>
    obtain rfl := Option.some.inj h
    exact hv
  | case2 tag v ih => exact ih hv h
  | case3 v hmapping htagged =>
    rw [entries?] at h
    · cases h
    · exact hmapping
    · exact htagged

theorem distinct_of_at? {v w : Value} {path : List String} (hv : v.distinct = true)
    (h : v.at? path = some w) : w.distinct = true := by
  induction path generalizing v with
  | nil =>
    obtain rfl := Option.some.inj h
    exact hv
  | cons name rest ih =>
    obtain ⟨below, hbelow, h⟩ := Option.bind_eq_some_iff.mp h
    obtain ⟨entries, hentries, hlookup⟩ := Option.bind_eq_some_iff.mp hbelow
    exact ih (distinct_of_lookup (distinct_entries hv hentries) hlookup) h

end Value

namespace Provider

/-! ### Instance keys -/

theorem customBase?_eq_some_iff {key base : String} :
    customBase? key = some base ↔
      base ≠ "" ∧ '/' ∉ base.toList ∧ ∃ rest, key = base ++ "/" ++ rest := by
  constructor
  · intro h
    unfold customBase? at h
    split at h
    next before rest hcut =>
      obtain ⟨hkey, hbefore⟩ := Text.cutAt?_eq_some_iff.mp hcut
      split at h
      · cases h
      next hnonempty =>
        obtain rfl := Option.some.inj h
        have hne : before ≠ [] := by simpa using hnonempty
        refine ⟨by simpa using hne, by simpa using hbefore, String.ofList rest, ?_⟩
        apply String.toList_injective
        simpa using hkey
    next => cases h
  · rintro ⟨hne, hbase, rest, rfl⟩
    have hcut : Text.cutAt? (· == '/') (base ++ "/" ++ rest).toList =
        some (base.toList, rest.toList) :=
      Text.cutAt?_eq_some_iff.mpr ⟨by simp, hbase⟩
    unfold customBase?
    rw [hcut]
    simp [hne]

theorem slash_of_customBase? {key base : String} (h : customBase? key = some base) :
    '/' ∈ key.toList := by
  obtain ⟨-, -, rest, rfl⟩ := customBase?_eq_some_iff.mp h
  simp

def added? (p : Provider) (key : String) : Option (String × RuleInfo) :=
  ((customBase? key).bind p.rule?).map fun info => (key, info)

theorem customKeys_eq (p : Provider) (setScope : Config) :
    p.customKeys setScope = setScope.keys.filterMap p.added? := by
  unfold customKeys
  congr 1
  funext key
  unfold added?
  cases customBase? key with
  | none => rfl
  | some base =>
    change ((p.rule? base).bind fun info => some (key, info)) =
      (p.rule? base).map fun info => (key, info)
    cases p.rule? base <;> rfl

theorem mem_customKeys {p : Provider} {setScope : Config} {key : String} {info : RuleInfo} :
    (key, info) ∈ p.customKeys setScope ↔
      key ∈ setScope.keys ∧ (customBase? key).bind p.rule? = some info := by
  rw [customKeys_eq, List.mem_filterMap]
  constructor
  · rintro ⟨key', hkey', h⟩
    obtain ⟨info', hinfo', h⟩ := Option.map_eq_some_iff.mp h
    obtain ⟨rfl, rfl⟩ := Prod.mk.inj h
    exact ⟨hkey', hinfo'⟩
  · rintro ⟨hkey, h⟩
    exact ⟨key, hkey, Option.map_eq_some_iff.mpr ⟨info, h, rfl⟩⟩

theorem nodup_customKeys (p : Provider) {setScope : Config}
    (h : setScope.root.distinct = true) : ((p.customKeys setScope).map (·.1)).Nodup := by
  rw [customKeys_eq, Config.keys]
  split
  next entries hentries =>
    obtain ⟨node, hnode, hentries⟩ := Option.bind_eq_some_iff.mp hentries
    have hdistinct := Value.distinct_entries (Value.distinct_of_at? h hnode) hentries
    rw [List.Nodup, List.pairwise_map, List.pairwise_filterMap, List.pairwise_filterMap]
    refine (Value.distinctEntries_iff.mp hdistinct).1.imp ?_
    -- Entries of one name would both have the name as a text for their key.
    intro e e' hdiffer key hkey key' hkey' a ha a' ha' heq
    obtain ⟨info, hinfo, rfl⟩ := Option.map_eq_some_iff.mp ha
    obtain ⟨info', -, rfl⟩ := Option.map_eq_some_iff.mp ha'
    obtain ⟨base, hbase, -⟩ := Option.bind_eq_some_iff.mp hinfo
    have hname : key = key' := heq
    have hslash := slash_of_customBase? hbase
    have he : e.1 = .string key := Value.eq_string_of_slash hkey hslash
    have he' : e'.1 = .string key := Value.eq_string_of_slash (hname ▸ hkey') hslash
    rw [he, he'] at hdiffer
    simp [Value.same] at hdiffer
  next => simp

/-- The names of a rule set's instances: its rules, then the keys that add one. -/
def instanceKeys (p : Provider) (setScope : Config) : List String :=
  p.rules.map (·.id) ++ (p.customKeys setScope).map (·.1)

theorem rule?_isSome_iff {p : Provider} {id : String} :
    (p.rule? id).isSome = true ↔ id ∈ p.rules.map (·.id) := by
  unfold rule?
  rw [List.find?_isSome, List.mem_map]
  simp

/-- A name stands for one instance unless it is the name of a rule and a key that adds an instance
of another. -/
theorem count_instanceKeys_eq_one_iff {p : Provider} {setScope : Config} {key : String}
    (hrules : (p.rules.map (·.id)).Nodup) (hroot : setScope.root.distinct = true)
    (hkey : key ∈ p.instanceKeys setScope) :
    (p.instanceKeys setScope).count key = 1 ↔
      ¬ (key ∈ p.rules.map (·.id) ∧ key ∈ (p.customKeys setScope).map (·.1)) := by
  have hown := List.nodup_iff_count_le_one.mp hrules key
  have hadded := List.nodup_iff_count_le_one.mp (p.nodup_customKeys hroot) key
  unfold instanceKeys at hkey ⊢
  rw [List.count_append, ← List.count_pos_iff, ← List.count_pos_iff]
  rw [← List.count_pos_iff, List.count_append] at hkey
  omega

end Provider

end CodeAudit
