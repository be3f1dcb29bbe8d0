import CodeAudit.Config.Load
import CodeAudit.Proofs.Value.Merge
import Mathlib.Data.List.Forall2
import Mathlib.Data.List.Induction

namespace CodeAudit

namespace Value

/-- On the way to the end of a path is a value that is neither null nor a mapping. -/
def Blocks (v : Value) (p : List String) : Prop :=
  ∃ q w, q <+: p ∧ q ≠ p ∧ v.at? q = some w ∧ w ≠ null ∧ w.isMapping = false

/-- There is a value at the path that is not null, or the way to it is blocked. -/
def Decides (v : Value) (p : List String) : Prop :=
  (∃ w, v.at? p = some w ∧ w ≠ null) ∨ v.Blocks p

/-- Nothing is at a path, or null. -/
def Vacant (v : Value) (p : List String) : Prop :=
  v.at? p = none ∨ v.at? p = some null

/-! ### Ways that are blocked -/

theorem not_blocks_null (p : List String) : ¬ null.Blocks p := by
  rintro ⟨q, w, -, -, hw, hnull, -⟩
  cases q with
  | nil => exact hnull (Option.some.inj hw).symm
  | cons name rest => cases hw

theorem blocks_of_leaf {v : Value} (hnull : v ≠ null) (hmapping : v.isMapping = false)
    (name : String) (rest : List String) : v.Blocks (name :: rest) :=
  ⟨[], v, List.nil_prefix, by simp, rfl, hnull, hmapping⟩

theorem blocks_mapping_cons {es : List (Value × Value)} {name : String} {rest : List String} :
    (mapping es).Blocks (name :: rest) ↔ ∃ w, lookup name es = some w ∧ w.Blocks rest := by
  constructor
  · rintro ⟨q, w, hq, hne, hw, hnull, hmapping⟩
    cases q with
    | nil =>
      obtain rfl := Option.some.inj hw
      cases hmapping
    | cons head tail =>
      obtain ⟨rfl, htail⟩ := List.cons_prefix_cons.mp hq
      obtain ⟨below, hbelow, hw⟩ := Option.bind_eq_some_iff.mp hw
      exact ⟨below, hbelow, tail, w, htail, fun heq => hne (by rw [heq]), hw, hnull, hmapping⟩
  · rintro ⟨below, hbelow, q, w, hq, hne, hw, hnull, hmapping⟩
    refine ⟨name :: q, w, List.cons_prefix_cons.mpr ⟨rfl, hq⟩, by simpa using hne, ?_, hnull,
      hmapping⟩
    rw [at?_mapping_cons, hbelow]
    exact hw

theorem decides_mapping_cons {es : List (Value × Value)} {name : String} {rest : List String} :
    (mapping es).Decides (name :: rest) ↔ ∃ w, lookup name es = some w ∧ w.Decides rest := by
  unfold Decides
  rw [blocks_mapping_cons, at?_mapping_cons]
  constructor
  · rintro (⟨w, hw, hnull⟩ | ⟨below, hbelow, hblocks⟩)
    · obtain ⟨below, hbelow, hw⟩ := Option.bind_eq_some_iff.mp hw
      exact ⟨below, hbelow, .inl ⟨w, hw, hnull⟩⟩
    · exact ⟨below, hbelow, .inr hblocks⟩
  · rintro ⟨below, hbelow, ⟨w, hw, hnull⟩ | hblocks⟩
    · exact .inl ⟨w, by rw [hbelow]; exact hw, hnull⟩
    · exact .inr ⟨below, hbelow, hblocks⟩

theorem decides_root (es : List (Value × Value)) : (mapping es).Decides [] :=
  .inl ⟨mapping es, rfl, by simp⟩

/-- A layer with null at a path, or on the way to it, does not decide it. -/
theorem not_decides_of_null {v : Value} {p q : List String} (ht : v.Untagged p) (hq : q <+: p)
    (h : v.at? q = some null) : ¬ v.Decides p := by
  induction q generalizing v p with
  | nil =>
    obtain rfl := Option.some.inj h
    rintro (⟨w, hw, hnull⟩ | hblocks)
    · cases p with
      | nil => exact hnull (Option.some.inj hw).symm
      | cons name rest => cases hw
    · exact not_blocks_null p hblocks
  | cons name q ih =>
    obtain ⟨rest, rfl⟩ := hq
    cases hmapping : v.isMapping with
    | false => cases (at?_cons_of_leaf hmapping ht.ne_tagged name q).symm.trans h
    | true =>
      obtain ⟨es, rfl⟩ := exists_of_isMapping hmapping
      obtain ⟨w, hw, hnull⟩ := Option.bind_eq_some_iff.mp h
      rw [List.cons_append, decides_mapping_cons]
      rintro ⟨w', hw', hdecides⟩
      obtain rfl := Option.some.inj (hw.symm.trans hw')
      exact ih (ht.of_lookup hw) (List.prefix_append q rest) hnull hdecides

theorem Blocks.at?_eq_none {v : Value} {p : List String} (h : v.Blocks p) (ht : v.Untagged p) :
    v.at? p = none := by
  induction p generalizing v with
  | nil =>
    obtain ⟨q, w, hq, hne, -⟩ := h
    exact absurd (List.prefix_nil.mp hq) hne
  | cons name rest ih =>
    cases hmapping : v.isMapping with
    | false => exact at?_cons_of_leaf hmapping ht.ne_tagged name rest
    | true =>
      obtain ⟨es, rfl⟩ := exists_of_isMapping hmapping
      obtain ⟨w, hw, hblocks⟩ := blocks_mapping_cons.mp h
      rw [at?_mapping_cons, hw]
      exact ih hblocks (ht.of_lookup hw)

/-! ### One layer on top of another -/

/-- What a merge leaves at a path, given what base and overlay have there and whether the overlay
blocks the way. -/
inductive LaidAt (base overlay : Option Value) (blocks : Prop) (result : Option Value) : Prop
  | hidden (hnone : overlay = none) (hblocks : blocks) (h : result = none)
  | left (hnone : overlay = none) (hblocks : ¬ blocks) (h : result = base)
  | merged (w : Value) (hsome : overlay = some w)
      (h : result = some ((base.map fun old => old.merge w).getD w))

theorem LaidAt.alone {overlay : Option Value} {blocks : Prop} :
    LaidAt none overlay blocks overlay := by
  cases overlay with
  | none =>
    by_cases h : blocks
    · exact .hidden rfl h rfl
    · exact .left rfl h rfl
  | some w => exact .merged w rfl rfl

theorem laidAt_merge {base overlay : Value} {p : List String} (hbase : base.Untagged p)
    (hoverlay : overlay.Untagged p) (hdistinct : overlay.distinct = true) :
    LaidAt (base.at? p) (overlay.at? p) (overlay.Blocks p) ((base.merge overlay).at? p) := by
  induction p generalizing base overlay with
  | nil => exact .merged overlay rfl rfl
  | cons name rest ih =>
    -- Null has no say, any other leaf hides what is below, and mappings are gone through together.
    by_cases hnull : overlay = null
    · subst hnull
      exact .left rfl (not_blocks_null _) (by rw [merge_null])
    cases hupper : overlay.isMapping with
    | false =>
      have hnone := at?_cons_of_leaf hupper hoverlay.ne_tagged name rest
      refine .hidden hnone (blocks_of_leaf hnull hupper name rest) ?_
      rw [merge_of_leaf hnull hupper, hnone]
    | true =>
      obtain ⟨upper, rfl⟩ := exists_of_isMapping hupper
      cases hlower : base.isMapping with
      | false =>
        rw [merge_onto_leaf hlower, at?_cons_of_leaf hlower hbase.ne_tagged]
        exact .alone
      | true =>
        obtain ⟨lower, rfl⟩ := exists_of_isMapping hlower
        rw [at?_merge_mapping hdistinct, at?_mapping_cons upper, propext blocks_mapping_cons]
        cases hv : lookup name upper with
        | none => exact .left rfl (by simp) rfl
        | some v =>
          have hblocks : (∃ w, some v = some w ∧ w.Blocks rest) ↔ v.Blocks rest := by simp
          rw [propext hblocks, at?_mapping_cons]
          cases hold : lookup name lower with
          | none => exact .alone
          | some old =>
            exact ih (hbase.of_lookup hold) (hoverlay.of_lookup hv)
              (distinct_of_lookup hdistinct hv)

theorem Untagged.merge {base overlay : Value} {p : List String} (hbase : base.Untagged p)
    (hoverlay : overlay.Untagged p) (hdistinct : overlay.distinct = true) :
    (base.merge overlay).Untagged p := by
  intro q hq tag w hw
  cases laidAt_merge (hbase.mono hq) (hoverlay.mono hq) hdistinct with
  | hidden _ _ h => cases h.symm.trans hw
  | left _ _ h => exact hbase q hq tag w (h.symm.trans hw)
  | merged upper hupper h =>
    have hresult := Option.some.inj (h.symm.trans hw)
    cases hold : base.at? q with
    | none =>
      rw [hold] at hresult
      exact hoverlay q hq tag w (by rw [hupper, ← hresult]; rfl)
    | some old =>
      rw [hold] at hresult
      rcases of_merge_eq_tagged hresult with rfl | rfl
      · exact hbase q hq tag w hold
      · exact hoverlay q hq tag w hupper

section Step

variable {base overlay : Value} {p : List String} (hbase : base.Untagged p)
  (hoverlay : overlay.Untagged p) (hdistinct : overlay.distinct = true)

include hbase hoverlay hdistinct

/-- A layer that does not decide a path leaves what is there, or null where nothing is. -/
theorem at?_merge_of_not_decides (h : ¬ overlay.Decides p) :
    (base.merge overlay).at? p = base.at? p ∨
      base.at? p = none ∧ (base.merge overlay).at? p = some null := by
  cases laidAt_merge hbase hoverlay hdistinct with
  | hidden _ hblocks _ => exact absurd (.inr hblocks) h
  | left _ _ hsame => exact .inl hsame
  | merged w hw hresult =>
    obtain rfl : w = null := by
      by_contra hnull
      exact h (.inl ⟨w, hw, hnull⟩)
    cases hold : base.at? p with
    | none => exact .inr ⟨rfl, by rw [hresult, hold]; rfl⟩
    | some old => exact .inl (by rw [hresult, hold, Option.map_some, merge_null]; rfl)

theorem at?_merge_of_leaf {w : Value} (hw : overlay.at? p = some w) (hnull : w ≠ null)
    (hmapping : w.isMapping = false) : (base.merge overlay).at? p = some w := by
  cases laidAt_merge hbase hoverlay hdistinct with
  | hidden hnone _ _ => cases hnone.symm.trans hw
  | left hnone _ _ => cases hnone.symm.trans hw
  | merged w' hw' hresult =>
    obtain rfl := Option.some.inj (hw'.symm.trans hw)
    rw [hresult]
    cases base.at? p with
    | none => rfl
    | some old => rw [Option.map_some, merge_of_leaf hnull hmapping]; rfl

theorem at?_merge_of_mapping {es : List (Value × Value)} (hes : overlay.at? p = some (mapping es)) :
    ∃ es', (base.merge overlay).at? p = some (mapping es') := by
  cases laidAt_merge hbase hoverlay hdistinct with
  | hidden hnone _ _ => cases hnone.symm.trans hes
  | left hnone _ _ => cases hnone.symm.trans hes
  | merged w hw hresult =>
    obtain rfl := Option.some.inj (hw.symm.trans hes)
    rw [hresult]
    cases base.at? p with
    | none => exact ⟨es, rfl⟩
    | some old =>
      obtain ⟨es', hes'⟩ := exists_of_isMapping (isMapping_merge old es)
      exact ⟨es', by rw [Option.map_some, hes']; rfl⟩

theorem at?_merge_of_blocks (h : overlay.Blocks p) : (base.merge overlay).at? p = none := by
  cases laidAt_merge hbase hoverlay hdistinct with
  | hidden _ _ hresult => exact hresult
  | left _ hblocks _ => exact absurd h hblocks
  | merged w hw _ => cases (h.at?_eq_none hoverlay).symm.trans hw

end Step

end Value

/-- A document's top level: entries in which no key is repeated, at any depth. -/
structure Layer where
  entries : List (Value × Value)
  distinct : (Value.mapping entries).distinct = true

namespace Layer

def value (l : Layer) : Value := .mapping l.entries

def config (l : Layer) : Config := .ofValue l.value

end Layer

namespace Config

/-- The layers on top of each other, first to last, above an empty configuration. -/
def layered (layers : List Layer) : Config :=
  layers.foldl (fun c l => c.merge l.config) empty

/-! ### The layers of files -/

theorem exists_layer_of_ofDocument {v : Value} {c : Config} (hv : v.distinct = true)
    (h : ofDocument v = .ok c) : ∃ l : Layer, c = l.config := by
  unfold ofDocument at h
  split at h
  · obtain rfl := Except.ok.inj h
    exact ⟨⟨_, hv⟩, rfl⟩
  · obtain rfl := Except.ok.inj h
    exact ⟨⟨[], rfl⟩, rfl⟩
  · cases h

theorem exists_layer_of_ofYaml {text : String} {c : Config} (h : ofYaml text = .ok c) :
    ∃ l : Layer, c = l.config := by
  unfold ofYaml at h
  split at h
  next v hv => exact exists_layer_of_ofDocument (Value.distinct_ofYaml hv) h
  next => cases h

theorem exists_layer_of_ofJson {text : String} {c : Config} (h : ofJson text = .ok c) :
    ∃ l : Layer, c = l.config := by
  unfold ofJson at h
  split at h
  next v hv =>
    obtain ⟨j, -, hj⟩ := Option.bind_eq_some_iff.mp hv
    exact exists_layer_of_ofDocument (Value.distinct_ofJson hj) h
  next => cases h

theorem exists_layer_of_load {fs : FileSystem} {path : Path} {c : Config}
    (h : load fs path = .ok c) : ∃ l : Layer, c = l.config := by
  obtain ⟨text, -, h⟩ := Success.of_bind h
  split at h
  · exact exists_layer_of_ofYaml h
  · exact exists_layer_of_ofYaml h
  · exact exists_layer_of_ofJson h
  · cases h

theorem exists_layers_of_foldlM {fs : FileSystem} {paths : List Path} {start c : Config}
    (h : paths.foldlM (fun c path => return c.merge (← load fs path)) start = .ok c) :
    ∃ layers : List Layer, List.Forall₂ (fun path l => load fs path = .ok l.config) paths layers ∧
      c = layers.foldl (fun c l => c.merge l.config) start := by
  induction paths generalizing start with
  | nil => exact ⟨[], .nil, (Except.ok.inj h).symm⟩
  | cons path rest ih =>
    rw [List.foldlM_cons] at h
    obtain ⟨next, hnext, h⟩ := Success.of_bind h
    obtain ⟨loaded, hloaded, hnext⟩ := Success.of_bind hnext
    obtain rfl := Except.ok.inj hnext
    obtain ⟨l, rfl⟩ := exists_layer_of_load hloaded
    obtain ⟨layers, hlayers, rfl⟩ := ih h
    exact ⟨l :: layers, .cons hloaded hlayers, rfl⟩

/-! ### The root of a layered configuration -/

theorem merge_config {c : Config} (h : c.scope = []) (l : Layer) :
    c.merge l.config = { c with root := c.root.merge l.value } := by
  rw [merge, h]
  rfl

theorem layered_append (earlier : List Layer) (l : Layer) :
    layered (earlier ++ [l]) = (layered earlier).merge l.config := by
  rw [layered, List.foldl_append]
  rfl

theorem scope_layered (layers : List Layer) : (layered layers).scope = [] := by
  induction layers using List.reverseRecOn with
  | nil => rfl
  | append_singleton earlier l ih => rw [layered_append, merge_config ih, ih]

theorem root_layered_append (earlier : List Layer) (l : Layer) :
    (layered (earlier ++ [l])).root = (layered earlier).root.merge l.value := by
  rw [layered_append, merge_config (scope_layered earlier)]

theorem distinct_layered (layers : List Layer) : (layered layers).root.distinct = true := by
  induction layers using List.reverseRecOn with
  | nil => rfl
  | append_singleton earlier l ih =>
    rw [root_layered_append]
    exact Value.distinct_merge ih l.distinct

theorem untagged_layered {layers : List Layer} {p : List String}
    (h : ∀ l ∈ layers, l.value.Untagged p) : (layered layers).root.Untagged p := by
  induction layers using List.reverseRecOn with
  | nil => exact Value.untagged_empty p
  | append_singleton earlier l ih =>
    rw [root_layered_append]
    exact (ih fun l' hl' => h l' (by simp [hl'])).merge (h l (by simp)) l.distinct

/-- Layers that do not decide a path leave a value that is there, and leave a vacant path vacant. -/
theorem at?_layered_append {earlier later : List Layer} {p : List String}
    (ht : ∀ l ∈ earlier ++ later, l.value.Untagged p) (h : ∀ l ∈ later, ¬ l.value.Decides p) :
    (∀ v, (layered earlier).root.at? p = some v →
      (layered (earlier ++ later)).root.at? p = some v) ∧
    ((layered earlier).root.Vacant p → (layered (earlier ++ later)).root.Vacant p) := by
  induction later using List.reverseRecOn with
  | nil => simp
  | append_singleton later l ih =>
    rw [← List.append_assoc] at ht ⊢
    obtain ⟨hkept, hvacant⟩ := ih (fun l' hl' => ht l' (List.mem_append_left _ hl'))
      fun l' hl' => h l' (List.mem_append_left _ hl')
    have hroot := untagged_layered fun l' hl' => ht l' (List.mem_append_left [l] hl')
    rw [root_layered_append]
    have hl : ¬ l.value.Decides p := h l (by simp)
    rcases Value.at?_merge_of_not_decides hroot (ht l (by simp)) l.distinct hl with
      hsame | ⟨hnone, hnull⟩
    · unfold Value.Vacant at hvacant ⊢
      rw [hsame]
      exact ⟨hkept, hvacant⟩
    · refine ⟨fun v hv => ?_, fun _ => .inr hnull⟩
      cases hnone.symm.trans (hkept v hv)

/-- What layers come to at a path along which none of them is tagged. The last layer to decide the
path settles it, and with none there is nothing or null, but for the root itself, which is a mapping
even without layers. -/
theorem resolve_leaf_by_leaf {layers : List Layer} {p : List String}
    (ht : ∀ l ∈ layers, l.value.Untagged p) :
    (layers ≠ [] ∨ p ≠ [] → (∀ l ∈ layers, ¬ l.value.Decides p) →
      (layered layers).root.Vacant p) ∧
    (∀ earlier l later, layers = earlier ++ l :: later → (∀ l' ∈ later, ¬ l'.value.Decides p) →
      (∀ w, l.value.at? p = some w → w ≠ .null → w.isMapping = false →
        (layered layers).root.at? p = some w) ∧
      (∀ es, l.value.at? p = some (.mapping es) →
        ∃ es', (layered layers).root.at? p = some (.mapping es')) ∧
      (l.value.Blocks p → (layered layers).root.Vacant p)) ∧
    (∀ earlier l later, layers = earlier ++ l :: later →
      ∀ q, q <+: p → l.value.at? q = some .null →
      ∀ v, (layered earlier).root.at? p = some v →
        (layered (earlier ++ [l])).root.at? p = some v) ∧
    ∀ fs paths c, loadLayered fs paths = .ok c →
      ∃ loaded, List.Forall₂ (fun path l => load fs path = .ok l.config) paths loaded ∧
        c = layered loaded := by
  refine ⟨fun hsome hnone => ?_, fun earlier l later hlayers hlater => ?_,
    fun earlier l later hlayers q hq hnull v hv => ?_, fun fs paths c h => exists_layers_of_foldlM h⟩
  · have hstart : (layered []).root.Vacant p := by
      cases p with
      | nil =>
        cases layers with
        | nil => simp at hsome
        | cons l rest => exact absurd (Value.decides_root l.entries) (hnone l (by simp))
      | cons name rest => exact .inl rfl
    exact (at?_layered_append ht hnone).2 hstart
  · -- The layer is laid on top of all before it, and the later ones leave what it leaves.
    obtain rfl : layers = (earlier ++ [l]) ++ later := by simpa using hlayers
    obtain ⟨hkept, hvacant⟩ := at?_layered_append ht hlater
    have hearlier : (layered earlier).root.Untagged p :=
      untagged_layered fun l' hl' => ht l' (by simp [hl'])
    have hl : l.value.Untagged p := ht l (by simp)
    rw [root_layered_append] at hkept hvacant
    refine ⟨fun w hw hnull hmapping => ?_, fun es hes => ?_, fun hblocks => ?_⟩
    · exact hkept w (Value.at?_merge_of_leaf hearlier hl l.distinct hw hnull hmapping)
    · obtain ⟨es', hes'⟩ := Value.at?_merge_of_mapping hearlier hl l.distinct hes
      exact ⟨es', hkept _ hes'⟩
    · exact hvacant (.inl (Value.at?_merge_of_blocks hearlier hl l.distinct hblocks))
  · subst hlayers
    have hl : ¬ l.value.Decides p := Value.not_decides_of_null (ht l (by simp)) hq hnull
    have hfront : ∀ l' ∈ earlier ++ [l], l'.value.Untagged p := fun l' hl' => ht l' (by grind)
    exact (at?_layered_append hfront (by simpa using hl)).1 v hv

/-- Without layers there still is a mapping at the root. -/
theorem root_without_layers :
    (∀ l ∈ ([] : List Layer), l.value.Untagged [] ∧ ¬ l.value.Decides []) ∧
      ¬ (layered []).root.Vacant [] := by
  refine ⟨by simp, ?_⟩
  rintro (h | h) <;> cases h

/-- A number, then a null in its place, then a null in place of the mapping around it. -/
def numberUnderNulls : List Layer :=
  [⟨[(.string "a", .mapping [(.string "b", .number (.int 1))])], by decide⟩,
    ⟨[(.string "a", .mapping [(.string "b", .null)])], by decide⟩,
    ⟨[(.string "a", .null)], by decide⟩]

theorem untagged_numberUnderNulls : ∀ l ∈ numberUnderNulls, l.value.Untagged ["a", "b"] := by
  intro l hl q hq tag w h
  simp only [numberUnderNulls, List.mem_cons, List.not_mem_nil, or_false] at hl
  simp only [List.prefix_cons_iff, List.prefix_nil] at hq
  rcases hl with rfl | rfl | rfl <;> rcases hq with rfl | ⟨-, rfl, rfl | ⟨-, rfl, rfl⟩⟩ <;> cases h

theorem resolve_numberUnderNulls :
    (∀ l ∈ numberUnderNulls, l.value.Untagged ["a", "b"]) ∧
      (layered numberUnderNulls).root.at? ["a", "b"] = some (.number (.int 1)) := by
  have ht := untagged_numberUnderNulls
  obtain ⟨-, hlast, -⟩ := resolve_leaf_by_leaf ht
  refine ⟨ht, (hlast [] _ _ rfl fun l hl => ?_).1 (.number (.int 1)) rfl (by simp) rfl⟩
  have hl' := ht l (List.mem_cons_of_mem _ hl)
  simp only [List.mem_cons, List.not_mem_nil, or_false] at hl
  rcases hl with rfl | rfl
  · exact Value.not_decides_of_null hl' (List.prefix_refl _) rfl
  · exact Value.not_decides_of_null hl' (List.prefix_append ["a"] ["b"]) rfl

end Config

end CodeAudit
