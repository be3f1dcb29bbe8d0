import CodeAudit.Proofs.Value.Merge
import CodeAudit.Proofs.Value.Sameness

namespace CodeAudit.Value

variable {k v : Value} {es lower upper : List (Value × Value)}

theorem null_merge (v : Value) : null.merge v = v := by
  cases v with
  | mapping upper => exact merge_onto_leaf rfl upper
  | _ => rw [merge] <;> simp

/-! ### The order of keys -/

theorem keys_upsert (k v : Value) (f : Value → Value) (es : List (Value × Value)) :
    (upsert k v f es).map Prod.fst =
      if es.any fun e => same k e.1 then es.map Prod.fst else es.map Prod.fst ++ [k] := by
  induction es with
  | nil => simp [upsert]
  | cons e rest ih =>
    rw [upsert, List.any_cons]
    by_cases hsame : same k e.1 = true
    · simp [hsame]
    · rw [if_neg hsame, List.map_cons, ih]
      simp only [hsame, Bool.false_or, List.map_cons, List.cons_append]
      split <;> rfl

theorem any_map_fst (k : Value) (es : List (Value × Value)) :
    ((es.map Prod.fst).any fun k' => same k k') = es.any fun e => same k e.1 := by
  simp [Function.comp_def]

/-- The keys of the lower entries come first, and then those that only the upper ones have. -/
theorem keys_mergeEntries (h : distinctEntries upper = true) :
    (mergeEntries lower upper).map Prod.fst =
      lower.map Prod.fst ++
        (upper.map Prod.fst).filter fun k => !lower.any fun e => same k e.1 := by
  induction upper generalizing lower with
  | nil => simp [mergeEntries]
  | cons e rest ih =>
    obtain ⟨k, v⟩ := e
    simp only [distinctEntries, Bool.and_eq_true, Bool.not_eq_true', List.any_eq_false] at h
    obtain ⟨⟨hapart, -⟩, hrest⟩ := h
    have hkeys := keys_upsert k v (fun old => merge old v) lower
    -- Entering `k` makes no difference to which of the later keys are new.
    have hnew : ∀ k' ∈ rest.map Prod.fst,
        (!(upsert k v (fun old => merge old v) lower).any fun e => same k' e.1) =
          !lower.any fun e => same k' e.1 := by
      intro k' hk'
      obtain ⟨e, he, rfl⟩ := List.mem_map.mp hk'
      have hne : same e.1 k = false := by simpa using hapart e he
      rw [← any_map_fst, hkeys, ← any_map_fst e.1 lower]
      split
      · rfl
      · simp [hne]
    rw [mergeEntries, ih hrest, List.filter_congr hnew, hkeys, List.map_cons, List.filter_cons]
    by_cases hk : (lower.any fun e => same k e.1) = true <;> simp [hk]

theorem not_same_symm (hk : k.wellKeyed = true) {k' : Value} (h : same k' k = false) :
    same k k' = false := by
  by_contra hsame
  have hback := same_symm hk (by simpa using hsame)
  simp [h] at hback

theorem pairwise_keys (h : wellKeyedEntries es = true) :
    (es.map Prod.fst).Pairwise fun k k' => same k k' = false := by
  obtain ⟨hapart, hparts⟩ := wellKeyedEntries_iff.mp h
  rw [List.pairwise_map]
  refine hapart.imp_of_mem ?_
  intro e e' he _ hne
  exact not_same_symm (hparts e he).1 hne

theorem pairwise_keys_mergeEntries (hlower : wellKeyedEntries lower = true)
    (hupper : wellKeyedEntries upper = true) :
    ((mergeEntries lower upper).map Prod.fst).Pairwise fun k k' => same k k' = false := by
  rw [keys_mergeEntries (distinctEntries_of_wellKeyed hupper), List.pairwise_append]
  refine ⟨pairwise_keys hlower, (pairwise_keys hupper).filter _, ?_⟩
  intro k hk k' hk'
  obtain ⟨e, he, rfl⟩ := List.mem_map.mp hk
  have hnew := (List.mem_filter.mp hk').2
  simp only [Bool.not_eq_true', List.any_eq_false, Bool.not_eq_true] at hnew
  exact not_same_symm ((wellKeyedEntries_iff.mp hlower).2 e he).1 (hnew e he)

/-! ### Laying a value down twice -/

/-- Laying an entry on top of the others changes none of them. -/
def Settled (k v : Value) (es : List (Value × Value)) : Prop :=
  upsert k v (fun old => merge old v) es = es

theorem settled_cons {k' old : Value} :
    Settled k v ((k', old) :: es) ↔
      if same k k' = true then old.merge v = old else Settled k v es := by
  rw [Settled, upsert]
  split <;> simp [Settled]

theorem settled_upsert (hagain : ∀ old : Value, (old.merge v).merge v = old.merge v)
    (es : List (Value × Value)) : Settled k v (upsert k v (fun old => merge old v) es) := by
  induction es with
  | nil =>
    have hself : v.merge v = v := by
      have h := hagain null
      rwa [null_merge] at h
    rw [upsert, settled_cons, if_pos (same_refl k)]
    exact hself
  | cons e rest ih =>
    obtain ⟨k', old⟩ := e
    rw [upsert]
    by_cases hsame : same k k' = true
    · rw [if_pos hsame, settled_cons, if_pos hsame]
      exact hagain old
    · rw [if_neg hsame, settled_cons, if_neg hsame]
      exact ih

theorem Settled.upsert (h : Settled k v es) (hk : k.wellKeyed = true) {k₂ : Value}
    (hne : same k₂ k = false) (w : Value) (f : Value → Value) :
    Settled k v (Value.upsert k₂ w f es) := by
  induction es with
  | nil => simp [Settled, Value.upsert] at h
  | cons e rest ih =>
    obtain ⟨k', old⟩ := e
    rw [settled_cons] at h
    rw [Value.upsert]
    by_cases hsame : same k k' = true
    · -- The two keys cannot both be the same as `k'`.
      have hother : ¬ same k₂ k' = true := by
        intro hsame₂
        have hboth := same_trans hsame₂ (same_symm hk hsame)
        simp [hne] at hboth
      rw [if_pos hsame] at h
      rw [if_neg hother, settled_cons, if_pos hsame]
      exact h
    · rw [if_neg hsame] at h
      by_cases hsame₂ : same k₂ k' = true
      · rw [if_pos hsame₂, settled_cons, if_neg hsame]
        exact h
      · rw [if_neg hsame₂, settled_cons, if_neg hsame]
        exact ih h

theorem Settled.mergeEntries (h : Settled k v es) (hk : k.wellKeyed = true)
    (hapart : ∀ e ∈ upper, same e.1 k = false) : Settled k v (Value.mergeEntries es upper) := by
  induction upper generalizing es with
  | nil =>
    rw [Value.mergeEntries]
    exact h
  | cons e rest ih =>
    rw [List.forall_mem_cons] at hapart
    rw [Value.mergeEntries]
    exact ih (h.upsert hk hapart.1 _ _) hapart.2

theorem mergeEntries_of_settled (h : ∀ e ∈ upper, Settled e.1 e.2 es) :
    mergeEntries es upper = es := by
  induction upper with
  | nil => rw [mergeEntries]
  | cons e rest ih =>
    rw [List.forall_mem_cons] at h
    rw [mergeEntries, h.1]
    exact ih h.2

theorem upsert_of_new {f : Value → Value} (h : ∀ e ∈ es, same k e.1 = false) :
    upsert k v f es = es ++ [(k, v)] := by
  induction es with
  | nil => rfl
  | cons e rest ih =>
    rw [List.forall_mem_cons] at h
    rw [upsert, ih h.2, h.1]
    rfl

theorem mergeEntries_of_new (hupper : distinctEntries upper = true)
    (h : ∀ u ∈ upper, ∀ e ∈ lower, same u.1 e.1 = false) :
    mergeEntries lower upper = lower ++ upper := by
  induction upper generalizing lower with
  | nil => simp [mergeEntries]
  | cons e rest ih =>
    obtain ⟨k, v⟩ := e
    simp only [distinctEntries, Bool.and_eq_true, Bool.not_eq_true', List.any_eq_false] at hupper
    obtain ⟨⟨hapart, -⟩, hrest⟩ := hupper
    rw [List.forall_mem_cons] at h
    have h' : ∀ u ∈ rest, ∀ e ∈ lower ++ [(k, v)], same u.1 e.1 = false := by
      intro u hu e he
      rcases List.mem_append.mp he with he | he
      · exact h.2 u hu e he
      · rw [List.mem_singleton.mp he]
        simpa using hapart u hu
    rw [mergeEntries, upsert_of_new h.1, ih hrest h', List.append_assoc]
    rfl

theorem exists_merge_eq (base : Value) (hupper : distinctEntries upper = true) :
    ∃ lower, base.merge (mapping upper) = mapping (mergeEntries lower upper) := by
  cases hbase : base.isMapping with
  | false =>
    refine ⟨[], ?_⟩
    rw [merge_onto_leaf hbase, mergeEntries_of_new hupper (by simp), List.nil_append]
  | true =>
    obtain ⟨lower, rfl⟩ := exists_of_isMapping hbase
    exact ⟨lower, merge_mapping lower upper⟩

mutual

theorem merge_merge (base : Value) {overlay : Value} (h : overlay.wellKeyed = true) :
    (base.merge overlay).merge overlay = base.merge overlay := by
  match overlay with
  | null => rw [merge_null]
  | mapping upper =>
    obtain ⟨lower, hlower⟩ := exists_merge_eq base (distinctEntries_of_wellKeyed h)
    rw [hlower, merge_mapping, mergeEntries_of_settled (settled_mergeEntries lower h)]
  | bool _ | number _ | string _ | list _ | tagged _ _ =>
    rw [merge_of_leaf (by simp) rfl, merge_of_leaf (by simp) rfl]
termination_by structural overlay

theorem settled_mergeEntries (lower : List (Value × Value)) {upper : List (Value × Value)}
    (h : wellKeyedEntries upper = true) :
    ∀ e ∈ upper, Settled e.1 e.2 (mergeEntries lower upper) := by
  match upper with
  | [] => simp
  | (k, v) :: rest =>
    obtain ⟨hapart, hk, hv, hrest⟩ := wellKeyedEntries_cons.mp h
    have hagain : ∀ old : Value, (old.merge v).merge v = old.merge v := fun old =>
      merge_merge old hv
    rw [mergeEntries, List.forall_mem_cons]
    exact ⟨(settled_upsert hagain lower).mergeEntries hk hapart, settled_mergeEntries _ hrest⟩
termination_by structural upper

end

/-! ### A path of keys -/

def valueOf? (k : Value) (es : List (Value × Value)) : Option Value :=
  (es.find? fun e => same k e.1).map Prod.snd

/-- Value at a path of keys. Only a mapping has anything below it. -/
def reach? : List Value → Value → Option Value
  | [], v => some v
  | k :: rest, mapping es => (valueOf? k es).bind (reach? rest)
  | _ :: _, _ => none

theorem valueOf?_cons (k k' old : Value) (rest : List (Value × Value)) :
    valueOf? k ((k', old) :: rest) = if same k k' = true then some old else valueOf? k rest := by
  unfold valueOf?
  rw [List.find?_cons]
  by_cases h : same k k' = true <;> simp [h]

theorem wellKeyed_valueOf? (h : wellKeyedEntries es = true) (hv : valueOf? k es = some v) :
    v.wellKeyed = true := by
  obtain ⟨e, he, rfl⟩ := Option.map_eq_some_iff.mp hv
  exact ((wellKeyedEntries_iff.mp h).2 e (List.mem_of_find?_eq_some he)).2

/-- Entering a key changes what is found under it, and nothing else. -/
theorem valueOf?_upsert {k₂ : Value} (hk : k.wellKeyed = true) (hk₂ : k₂.wellKeyed = true)
    (w : Value) (f : Value → Value) (es : List (Value × Value)) :
    valueOf? k (upsert k₂ w f es) =
      if same k k₂ = true then some (((valueOf? k es).map f).getD w) else valueOf? k es := by
  induction es with
  | nil =>
    rw [upsert, valueOf?_cons]
    rfl
  | cons e rest ih =>
    obtain ⟨k', old⟩ := e
    rw [upsert]
    by_cases hsame₂ : same k₂ k' = true
    · -- Keys that are the same as one another cannot be told apart by a third.
      have hsame : same k k' = same k k₂ := by
        rw [Bool.eq_iff_iff]
        exact ⟨fun h => same_trans h (same_symm hk₂ hsame₂), fun h => same_trans h hsame₂⟩
      rw [if_pos hsame₂, valueOf?_cons, valueOf?_cons, hsame]
      by_cases h : same k k₂ = true <;> simp [h]
    · rw [if_neg hsame₂, valueOf?_cons, valueOf?_cons, ih]
      by_cases h : same k k₂ = true
      · have hsame : ¬ same k k' = true := fun h' => hsame₂ (same_trans (same_symm hk h) h')
        simp [h, hsame]
      · simp [h]

/-- What is found under a key that the upper entries do not have is what was found before. -/
theorem valueOf?_mergeEntries_of_absent (hk : k.wellKeyed = true)
    (hupper : wellKeyedEntries upper = true) (habsent : ∀ e ∈ upper, same k e.1 = false) :
    valueOf? k (mergeEntries lower upper) = valueOf? k lower := by
  induction upper generalizing lower with
  | nil => rw [mergeEntries]
  | cons e rest ih =>
    rw [List.forall_mem_cons] at habsent
    obtain ⟨-, hk₂, -, hrest⟩ := wellKeyedEntries_cons.mp hupper
    rw [mergeEntries, ih hrest habsent.2, valueOf?_upsert hk hk₂, habsent.1]
    rfl

theorem valueOf?_mergeEntries (hk : k.wellKeyed = true) (hupper : wellKeyedEntries upper = true)
    {x y : Value} (hx : valueOf? k lower = some x) (hy : valueOf? k upper = some y) :
    valueOf? k (mergeEntries lower upper) = some (x.merge y) := by
  induction upper generalizing lower with
  | nil => cases hy
  | cons e rest ih =>
    obtain ⟨k₂, w⟩ := e
    obtain ⟨hapart, hk₂, -, hrest⟩ := wellKeyedEntries_cons.mp hupper
    rw [valueOf?_cons] at hy
    rw [mergeEntries]
    by_cases hsame : same k k₂ = true
    · -- The key does not come again, so nothing behind this entry changes its value.
      have habsent : ∀ e ∈ rest, same k e.1 = false := by
        intro e he
        by_contra h
        have hke : same k e.1 = true := by simpa using h
        have hboth : same e.1 k₂ = true := same_trans (same_symm hk hke) hsame
        simp [hapart e he] at hboth
      have hw : w = y := by simpa [hsame] using hy
      rw [valueOf?_mergeEntries_of_absent hk hrest habsent, valueOf?_upsert hk hk₂, if_pos hsame, hx,
        hw]
      rfl
    · rw [if_neg hsame] at hy
      apply ih hrest _ hy
      rw [valueOf?_upsert hk hk₂, if_neg hsame]
      exact hx

theorem reach?_cons_eq_some {k v w : Value} {p : List Value} (h : v.reach? (k :: p) = some w) :
    ∃ es x, v = mapping es ∧ valueOf? k es = some x ∧ x.reach? p = some w := by
  cases v with
  | mapping es =>
    obtain ⟨x, hx, hw⟩ := Option.bind_eq_some_iff.mp h
    exact ⟨es, x, rfl, hx, hw⟩
  | _ => cases h

theorem wellKeyed_of_reach? {v w : Value} {p : List Value} (hv : v.wellKeyed = true)
    (h : v.reach? p = some w) : w.wellKeyed = true := by
  induction p generalizing v with
  | nil => exact Option.some.inj h ▸ hv
  | cons k p ih =>
    obtain ⟨es, x, rfl, hx, hw⟩ := reach?_cons_eq_some h
    exact ih (wellKeyed_valueOf? hv hx) hw

theorem reach?_merge {base overlay x y : Value} {p : List Value}
    (hoverlay : overlay.wellKeyed = true) (hp : ∀ k ∈ p, k.wellKeyed = true)
    (hx : base.reach? p = some x) (hy : overlay.reach? p = some y) :
    (base.merge overlay).reach? p = some (x.merge y) := by
  induction p generalizing base overlay with
  | nil => rw [Option.some.inj hx, Option.some.inj hy, reach?]
  | cons k p ih =>
    rw [List.forall_mem_cons] at hp
    obtain ⟨lower, x', rfl, hx', hx⟩ := reach?_cons_eq_some hx
    obtain ⟨upper, y', rfl, hy', hy⟩ := reach?_cons_eq_some hy
    rw [merge_mapping, reach?, valueOf?_mergeEntries hp.1 hoverlay hx' hy', Option.bind_some]
    exact ih (wellKeyed_valueOf? hoverlay hy') hp.2 hx hy

/-- Laying a value down a second time changes nothing. Where both sides have a mapping at a path of
keys, the keys there are those of the lower one in its order, and after them those that only the
upper one has, in its order; none is repeated. -/
theorem merge_twice_and_key_order {base overlay : Value} (hbase : base.wellKeyed = true)
    (hoverlay : overlay.wellKeyed = true) :
    (base.merge overlay).merge overlay = base.merge overlay ∧
    ∀ (p : List Value) (lower upper : List (Value × Value)), (∀ k ∈ p, k.wellKeyed = true) →
      base.reach? p = some (mapping lower) → overlay.reach? p = some (mapping upper) →
      ∃ merged, (base.merge overlay).reach? p = some (mapping merged) ∧
        merged.map Prod.fst = lower.map Prod.fst ++
          (upper.map Prod.fst).filter (fun k => !lower.any fun e => same k e.1) ∧
        (merged.map Prod.fst).Pairwise fun k k' => same k k' = false := by
  refine ⟨merge_merge base hoverlay, ?_⟩
  intro p lower upper hp hlower hupper
  have hreach := reach?_merge hoverlay hp hlower hupper
  have hlower' : wellKeyedEntries lower = true := wellKeyed_of_reach? hbase hlower
  have hupper' : wellKeyedEntries upper = true := wellKeyed_of_reach? hoverlay hupper
  rw [merge_mapping] at hreach
  exact ⟨mergeEntries lower upper, hreach, keys_mergeEntries (distinctEntries_of_wellKeyed hupper'),
    pairwise_keys_mergeEntries hlower' hupper'⟩

/-! ### Two layers of a rule set -/

/-- A null, a list and a mapping as keys' values, and a mapping as a key. -/
def lowerLayer : Value :=
  mapping [
    (string "style", mapping [(string "active", bool true), (string "names", list [string "a"])]),
    (mapping [(string "x", null), (string "y", null)], mapping [(number (.int 1), null)])]

/-- Keys in another order, a null and a tagged value; the mapping that is a key has its own entries
turned around. -/
def upperLayer : Value :=
  mapping [
    (string "engine", tagged "t" (mapping [])),
    (mapping [(string "y", null), (string "x", null)], mapping [(number (.int 2), bool false)]),
    (string "style", mapping [(string "since", string "1"), (string "names", null)])]

theorem merge_twice_upperLayer :
    lowerLayer.wellKeyed = true ∧ upperLayer.wellKeyed = true ∧
    (lowerLayer.merge upperLayer).merge upperLayer = lowerLayer.merge upperLayer ∧
    ∃ merged, (lowerLayer.merge upperLayer).reach? [string "style"] = some (mapping merged) ∧
      merged.map Prod.fst = [string "active", string "names", string "since"] := by
  have hlower : lowerLayer.wellKeyed = true := by decide
  have hupper : upperLayer.wellKeyed = true := by decide
  obtain ⟨htwice, horder⟩ := merge_twice_and_key_order hlower hupper
  obtain ⟨merged, hmerged, hkeys, -⟩ := horder [string "style"] _ _ (by decide) rfl rfl
  refine ⟨hlower, hupper, htwice, merged, hmerged, ?_⟩
  simp [hkeys, same]

end CodeAudit.Value
