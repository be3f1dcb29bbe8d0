import CodeAudit.Config.Read
import CodeAudit.Proofs.Value.Merge

namespace CodeAudit

namespace Value

/-- Changes the entries of a mapping that may be tagged. -/
def mapEntries (f : List (Value × Value) → List (Value × Value)) : Value → Value
  | mapping entries => mapping (f entries)
  | tagged tag v => tagged tag (v.mapEntries f)
  | v => v

/-- The value without the entry at a path of keys. -/
def without : List Value → Value → Value
  | [], v => v
  | [k], v => v.mapEntries fun entries => entries.filter fun e => !same k e.1
  | k :: rest, v => v.mapEntries fun entries =>
      entries.map fun e => if same k e.1 then (e.1, without rest e.2) else e

/-! ### One name -/

theorem entries?_mapEntries (f : List (Value × Value) → List (Value × Value)) (v : Value) :
    (v.mapEntries f).entries? = v.entries?.map f := by
  induction v using mapEntries.induct with
  | case1 entries => rfl
  | case2 tag v ih => exact ih
  | case3 v hmapping htagged =>
    cases v with
    | mapping es => exact absurd rfl (hmapping es)
    | tagged tag w => exact absurd rfl (htagged tag w)
    | _ => rfl

theorem isName_iff {k : Value} {name : String} : k.isName name = true ↔ k = string name := by
  cases k with
  | string s => simp [isName]
  | _ => simp [isName]

theorem lookup_filter_not_same (name : String) (k : Value) (entries : List (Value × Value)) :
    lookup name (entries.filter fun e => !same k e.1) =
      if k.isName name then none else lookup name entries := by
  induction entries with
  | nil => simp [lookup]
  | cons e rest ih =>
    obtain ⟨k', v⟩ := e
    by_cases hsame : same k k' = true
    · rw [List.filter_cons_of_neg (by simpa using hsame), ih, lookup_cons, isName_of_same hsame]
      split <;> simp_all
    · rw [List.filter_cons_of_pos (by simpa using hsame), lookup_cons, lookup_cons, ih]
      by_cases hk : k.isName name = true
      · have hk' : ¬ k'.isName name = true := fun hk' => hsame (same_of_isName hk hk')
        simp [hk, hk']
      · simp [hk]

theorem lookup_map_same (name : String) (k : Value) (f : Value → Value)
    (entries : List (Value × Value)) :
    lookup name (entries.map fun e => if same k e.1 then (e.1, f e.2) else e) =
      if k.isName name then (lookup name entries).map f else lookup name entries := by
  induction entries with
  | nil => simp [lookup]
  | cons e rest ih =>
    obtain ⟨k', v⟩ := e
    rw [List.map_cons]
    by_cases hsame : same k k' = true
    · simp only [hsame, if_true]
      rw [lookup_cons, lookup_cons, ih, isName_of_same hsame]
      split <;> simp_all
    · simp only [hsame]
      rw [if_neg (by simp), lookup_cons, lookup_cons, ih]
      by_cases hk : k.isName name = true
      · have hk' : ¬ k'.isName name = true := fun hk' => hsame (same_of_isName hk hk')
        simp [hk, hk']
      · simp [hk]

theorem get?_mapEntries {f : List (Value × Value) → List (Value × Value)} {name : String}
    {g : Option Value → Option Value} (hnone : g none = none)
    (h : ∀ entries, lookup name (f entries) = g (lookup name entries)) (v : Value) :
    (v.mapEntries f).get? name = g (v.get? name) := by
  unfold get?
  rw [entries?_mapEntries]
  cases v.entries? with
  | none => exact hnone.symm
  | some entries => exact h entries

theorem get?_without_of_ne {k : Value} {name : String} (hk : k ≠ string name) (rest : List Value)
    (v : Value) : (v.without (k :: rest)).get? name = v.get? name := by
  have hname : ¬ k.isName name = true := fun h => hk (isName_iff.mp h)
  cases rest with
  | nil =>
    refine get?_mapEntries (g := id) rfl (fun entries => ?_) v
    rw [lookup_filter_not_same, if_neg hname]
    rfl
  | cons k' rest =>
    refine get?_mapEntries (g := id) rfl (fun entries => ?_) v
    rw [lookup_map_same, if_neg hname]
    rfl

theorem get?_without_inside (name : String) (k : Value) (rest : List Value) (v : Value) :
    (v.without (string name :: k :: rest)).get? name =
      (v.get? name).map (without (k :: rest)) := by
  refine get?_mapEntries (g := fun o => o.map (without (k :: rest))) rfl (fun entries => ?_) v
  rw [lookup_map_same, if_pos (by simp [isName])]

/-! ### Paths of names -/

/-- At a path that does not pass through the entry there is what was there before, with the entry
taken out if it is inside. -/
theorem at?_without {keys : List Value} {path : List String}
    (h : ¬ keys <+: path.map string) (v : Value) :
    ∃ inside, (v.without keys).at? path = (v.at? path).map (without inside) ∧
      (inside = [] ∨ keys = path.map string ++ inside) := by
  induction path generalizing keys v with
  | nil => exact ⟨keys, rfl, .inr rfl⟩
  | cons name path ih =>
    have hid : without [] = id := rfl
    cases keys with
    | nil => exact absurd List.nil_prefix h
    | cons k rest =>
      by_cases hk : k = string name
      · subst hk
        cases rest with
        | nil => exact absurd (List.prefix_append [string name] (path.map string)) h
        | cons k' rest =>
          -- The path and the keys go into the same entry.
          have hrest : ¬ k' :: rest <+: path.map string := fun hfront =>
            h (List.cons_prefix_cons.mpr ⟨rfl, hfront⟩)
          cases hbelow : v.get? name with
          | none =>
            refine ⟨[], ?_, .inl rfl⟩
            simp [at?, get?_without_inside, hbelow]
          | some w =>
            obtain ⟨inside, hinside, hkeys⟩ := ih hrest w
            refine ⟨inside, ?_, ?_⟩
            · simpa [at?, get?_without_inside, hbelow] using hinside
            · rcases hkeys with hkeys | hkeys
              · exact .inl hkeys
              · exact .inr (by rw [hkeys]; rfl)
      · -- They part here, and the path does not meet the entry any more.
        refine ⟨[], ?_, .inl rfl⟩
        simp [at?, get?_without_of_ne hk, hid]

theorem at?_append (v : Value) (path rest : List String) :
    v.at? (path ++ rest) = (v.at? path).bind fun w => w.at? rest := by
  induction path generalizing v with
  | nil => rfl
  | cons name path ih =>
    rw [List.cons_append, at?, at?, Option.bind_assoc]
    exact Option.bind_congr fun w _ => ih w

/-! ### What shows of a value -/

theorem without_cases (keys : List Value) (v : Value) :
    v.without keys = v ∨ (∃ es es', v = mapping es ∧ v.without keys = mapping es') ∨
      ∃ tag w w', v = tagged tag w ∧ v.without keys = tagged tag w' := by
  have hmap : ∀ f : List (Value × Value) → List (Value × Value), v.mapEntries f = v ∨
      (∃ es es', v = mapping es ∧ v.mapEntries f = mapping es') ∨
        ∃ tag w w', v = tagged tag w ∧ v.mapEntries f = tagged tag w' := by
    intro f
    cases v with
    | mapping es => exact .inr (.inl ⟨es, f es, rfl, rfl⟩)
    | tagged tag w => exact .inr (.inr ⟨tag, w, w.mapEntries f, rfl, rfl⟩)
    | _ => exact .inl rfl
  cases keys with
  | nil => exact .inl rfl
  | cons k rest =>
    cases rest with
    | nil => exact hmap _
    | cons k' rest => exact hmap _

end Value

/-- A reader that gets nothing out of a mapping or a tagged value. -/
def Reader.Plain {α : Type} (r : Reader α) : Prop :=
  (∀ es, r.read? (.mapping es) = none) ∧ ∀ tag v, r.read? (.tagged tag v) = none

namespace Reader

theorem flag_plain : flag.Plain := ⟨fun _ => rfl, fun _ _ => rfl⟩

theorem text_plain : text.Plain := ⟨fun _ => rfl, fun _ _ => rfl⟩

theorem count_plain : count.Plain := ⟨fun _ => rfl, fun _ _ => rfl⟩

theorem texts_plain : texts.Plain := ⟨fun _ => rfl, fun _ _ => rfl⟩

end Reader

namespace Config

theorem raw?_eq_at? (c : Config) (key : String) : c.raw? key = c.root.at? (c.scope ++ [key]) := by
  rw [raw?, node?, Value.at?_append]
  refine Option.bind_congr fun w _ => ?_
  rw [Value.at?]
  cases w.get? key <;> rfl

/-- The configuration without the entry at a path of keys from its root. -/
def cut (c : Config) (keys : List Value) : Config := { c with root := c.root.without keys }

/-- The configuration without the entry at a path of keys from its scope. -/
def delete (c : Config) (keys : List Value) : Config := c.cut (c.scope.map .string ++ keys)

theorem value?_cut {c : Config} {keys : List Value} {key : String}
    (h : ¬ keys <+: (c.scope ++ [key]).map .string) {α : Type} {r : Reader α} (hr : r.Plain) :
    (c.cut keys).value? r key = c.value? r key := by
  obtain ⟨inside, hat, -⟩ := Value.at?_without h c.root
  have hraw : (c.cut keys).raw? key = (c.raw? key).map (Value.without inside) := by
    rw [raw?_eq_at?, raw?_eq_at?]
    exact hat
  unfold value?
  rw [hraw]
  cases c.raw? key with
  | none => rfl
  | some v =>
    rw [Option.map_some]
    rcases Value.without_cases inside v with hsame | ⟨es, es', rfl, hes⟩ | ⟨tag, w, w', rfl, hw⟩
    · rw [hsame]
      rfl
    · rw [hes]
      simp only [hr.1]
      rfl
    · rw [hw]
      simp only [hr.2]
      rfl

end Config

end CodeAudit
