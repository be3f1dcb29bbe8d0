import CodeAudit.Proofs.Value.Distinct
import CodeAudit.Value.Merge

namespace CodeAudit.Value

def isMapping : Value → Bool
  | mapping _ => true
  | _ => false

theorem exists_of_isMapping {v : Value} (h : v.isMapping = true) : ∃ es, v = mapping es := by
  cases v with
  | mapping es => exact ⟨es, rfl⟩
  | _ => cases h

/-! ### One name -/

theorem lookup_cons (name : String) (k v : Value) (rest : List (Value × Value)) :
    lookup name ((k, v) :: rest) = if k.isName name = true then some v else lookup name rest := by
  unfold lookup
  rw [List.find?_cons]
  by_cases h : k.isName name = true
  · simp [h]
  · simp [h]

theorem distinct_of_lookup {name : String} {entries : List (Value × Value)} {v : Value}
    (h : (mapping entries).distinct = true) (hv : lookup name entries = some v) :
    v.distinct = true := by
  obtain ⟨e, he, rfl⟩ := Option.map_eq_some_iff.mp hv
  exact (distinctEntries_iff.mp h).2 e (List.mem_of_find?_eq_some he)

theorem isName_of_same {k k' : Value} (h : same k k' = true) (name : String) :
    k.isName name = k'.isName name := by
  cases k with
  | string s =>
    cases k' with
    | string t =>
      simp only [same, beq_iff_eq] at h
      rw [h]
    | _ => simp [same] at h
  | _ =>
    cases k' with
    | string t => simp [same] at h
    | _ => rfl

theorem same_of_isName {k k' : Value} {name : String} (h : k.isName name = true)
    (h' : k'.isName name = true) : same k k' = true := by
  cases k with
  | string s =>
    cases k' with
    | string t =>
      simp only [isName, beq_iff_eq] at h h'
      simp only [same, beq_iff_eq]
      rw [h, h']
    | _ => cases h'
  | _ => cases h

/-- Entering a key changes what is found under its name, and nothing else. -/
theorem lookup_upsert (name : String) (k v : Value) (f : Value → Value)
    (entries : List (Value × Value)) :
    lookup name (upsert k v f entries) =
      if k.isName name = true then some (((lookup name entries).map f).getD v)
      else lookup name entries := by
  induction entries with
  | nil =>
    rw [upsert, lookup_cons]
    rfl
  | cons e rest ih =>
    obtain ⟨k', old⟩ := e
    unfold upsert
    by_cases hsame : same k k' = true
    · rw [if_pos hsame, lookup_cons, lookup_cons, isName_of_same hsame name]
      by_cases hk' : k'.isName name = true <;> simp [hk']
    · rw [if_neg hsame, lookup_cons, lookup_cons, ih]
      by_cases hk : k.isName name = true
      · have hk' : ¬ k'.isName name = true := fun hk' => hsame (same_of_isName hk hk')
        simp [hk, hk']
      · simp [hk]

/-- A name that is in the upper entries at most once is found there, laid on top of what the lower
ones have under it. -/
theorem lookup_mergeEntries (name : String) {lower upper : List (Value × Value)}
    (h : distinctEntries upper = true) :
    lookup name (mergeEntries lower upper) =
      match lookup name upper with
      | none => lookup name lower
      | some v => some (((lookup name lower).map fun old => merge old v).getD v) := by
  induction upper generalizing lower with
  | nil =>
    rw [mergeEntries]
    rfl
  | cons e rest ih =>
    obtain ⟨k, v⟩ := e
    simp only [distinctEntries, Bool.and_eq_true, Bool.not_eq_true'] at h
    obtain ⟨⟨hkey, -⟩, hrest⟩ := h
    rw [mergeEntries, ih hrest, lookup_upsert, lookup_cons]
    by_cases hk : k.isName name = true
    · -- The name does not come again.
      have hnone : lookup name rest = none := by
        unfold lookup
        rw [Option.map_eq_none_iff, List.find?_eq_none]
        intro e he hname
        have hfalse := List.any_eq_false.mp hkey e he
        exact hfalse (same_of_isName hname hk)
      simp [hk, hnone]
    · simp [hk]

/-! ### The cases of a merge -/

@[simp] theorem merge_null (base : Value) : base.merge null = base := by
  rw [merge]

theorem merge_of_leaf {overlay : Value} (hnull : overlay ≠ null)
    (hmapping : overlay.isMapping = false) (base : Value) : base.merge overlay = overlay := by
  cases overlay with
  | null => exact absurd rfl hnull
  | mapping upper => cases hmapping
  | _ => rw [merge] <;> simp

theorem merge_onto_leaf {base : Value} (h : base.isMapping = false) (upper : List (Value × Value)) :
    base.merge (mapping upper) = mapping upper := by
  rw [merge]
  rintro lower rfl
  cases h

theorem merge_mapping (lower upper : List (Value × Value)) :
    (mapping lower).merge (mapping upper) = mapping (mergeEntries lower upper) := by
  rw [merge]

theorem isMapping_merge (base : Value) (upper : List (Value × Value)) :
    (base.merge (mapping upper)).isMapping = true := by
  cases h : base.isMapping with
  | false =>
    rw [merge_onto_leaf h]
    rfl
  | true =>
    obtain ⟨lower, rfl⟩ := exists_of_isMapping h
    rw [merge_mapping]
    rfl

theorem of_merge_eq_tagged {base overlay w : Value} {tag : String}
    (h : base.merge overlay = tagged tag w) : base = tagged tag w ∨ overlay = tagged tag w := by
  by_cases hnull : overlay = null
  · rw [hnull, merge_null] at h
    exact .inl h
  cases hmapping : overlay.isMapping with
  | false =>
    rw [merge_of_leaf hnull hmapping] at h
    exact .inr h
  | true =>
    obtain ⟨upper, rfl⟩ := exists_of_isMapping hmapping
    have hresult := isMapping_merge base upper
    rw [h] at hresult
    cases hresult

/-! ### No key is repeated -/

theorem any_same_upsert {k v : Value} {f : Value → Value} {entries : List (Value × Value)}
    {k' : Value} (h : ¬ same k k' = true) :
    (upsert k v f entries).any (fun e => same e.1 k') = entries.any fun e => same e.1 k' := by
  induction entries with
  | nil => simpa [upsert] using h
  | cons e rest ih =>
    unfold upsert
    split
    · rfl
    · rw [List.any_cons, List.any_cons, ih]

theorem distinct_upsert {k v : Value} {f : Value → Value} {entries : List (Value × Value)}
    (h : distinctEntries entries = true) (hv : v.distinct = true)
    (hf : ∀ old : Value, old.distinct = true → (f old).distinct = true) :
    distinctEntries (upsert k v f entries) = true := by
  induction entries with
  | nil => simp [upsert, distinctEntries, hv]
  | cons e rest ih =>
    obtain ⟨k', old⟩ := e
    simp only [distinctEntries, Bool.and_eq_true, Bool.not_eq_true'] at h
    obtain ⟨⟨hkey, hold⟩, hrest⟩ := h
    unfold upsert
    by_cases hsame : same k k' = true
    · rw [if_pos hsame]
      simp [distinctEntries, hkey, hf old hold, hrest]
    · rw [if_neg hsame]
      simp only [distinctEntries, any_same_upsert hsame, hkey, hold, ih hrest]
      rfl

mutual

theorem distinct_merge {base overlay : Value} (hbase : base.distinct = true)
    (hoverlay : overlay.distinct = true) : (base.merge overlay).distinct = true := by
  match overlay with
  | null =>
    rw [merge_null]
    exact hbase
  | mapping upper =>
    cases hlower : base.isMapping with
    | false =>
      rw [merge_onto_leaf hlower]
      exact hoverlay
    | true =>
      obtain ⟨lower, rfl⟩ := exists_of_isMapping hlower
      rw [merge_mapping]
      exact distinct_mergeEntries hbase hoverlay
  | bool _ | number _ | string _ | list _ | tagged _ _ =>
    rw [merge_of_leaf (by simp) rfl]
    exact hoverlay
termination_by structural overlay

theorem distinct_mergeEntries {lower upper : List (Value × Value)}
    (hlower : distinctEntries lower = true) (hupper : distinctEntries upper = true) :
    distinctEntries (mergeEntries lower upper) = true := by
  match upper with
  | [] =>
    rw [mergeEntries]
    exact hlower
  | (k, v) :: rest =>
    simp only [distinctEntries, Bool.and_eq_true] at hupper
    obtain ⟨⟨-, hv⟩, hrest⟩ := hupper
    rw [mergeEntries]
    apply distinct_mergeEntries _ hrest
    exact distinct_upsert hlower hv fun old hold => distinct_merge hold hv
termination_by structural upper

end

/-! ### A path of names -/

theorem at?_mapping_cons (es : List (Value × Value)) (name : String) (rest : List String) :
    (mapping es).at? (name :: rest) = (lookup name es).bind fun w => w.at? rest := rfl

/-- No value on the way along a path, its end included, is tagged. -/
def Untagged (v : Value) (p : List String) : Prop :=
  ∀ q, q <+: p → ∀ tag w, v.at? q ≠ some (tagged tag w)

theorem Untagged.ne_tagged {v : Value} {p : List String} (h : v.Untagged p) (tag : String)
    (w : Value) : v ≠ tagged tag w := by
  rintro rfl
  exact h [] (List.nil_prefix) tag w rfl

theorem Untagged.mono {v : Value} {p q : List String} (h : v.Untagged p) (hq : q <+: p) :
    v.Untagged q :=
  fun _ hr => h _ (hr.trans hq)

theorem untagged_empty (p : List String) : (mapping []).Untagged p := by
  intro q _ tag w h
  cases q with
  | nil => cases h
  | cons name rest => cases h

theorem Untagged.of_lookup {es : List (Value × Value)} {name : String} {rest : List String}
    {w : Value} (h : (mapping es).Untagged (name :: rest)) (hw : lookup name es = some w) :
    w.Untagged rest := by
  intro q hq tag w' hw'
  apply h (name :: q) ((List.prefix_cons_inj name).mpr hq) tag w'
  rw [at?_mapping_cons, hw]
  exact hw'

theorem at?_cons_of_leaf {v : Value} (hmapping : v.isMapping = false)
    (htagged : ∀ tag w, v ≠ tagged tag w) (name : String) (rest : List String) :
    v.at? (name :: rest) = none := by
  cases v with
  | mapping es => cases hmapping
  | tagged tag w => exact absurd rfl (htagged tag w)
  | _ => rfl

theorem at?_merge_mapping {lower upper : List (Value × Value)} (h : distinctEntries upper = true)
    (name : String) (rest : List String) :
    ((mapping lower).merge (mapping upper)).at? (name :: rest) =
      match lookup name upper with
      | none => (mapping lower).at? (name :: rest)
      | some v =>
        match lookup name lower with
        | none => v.at? rest
        | some old => (old.merge v).at? rest := by
  rw [merge_mapping, at?_mapping_cons, lookup_mergeEntries name h]
  cases hupper : lookup name upper with
  | none => rfl
  | some v => cases hlower : lookup name lower <;> rfl

end CodeAudit.Value
