import CodeAudit.Proofs.Success
import CodeAudit.Value.OfJson
import CodeAudit.Value.Yaml

namespace CodeAudit.Value

mutual

/-- No mapping in the value, at any depth, has a key twice. -/
def distinct : Value → Bool
  | list items => distinctItems items
  | mapping entries => distinctEntries entries
  | tagged _ v => distinct v
  | null | bool _ | number _ | string _ => true

def distinctItems : List Value → Bool
  | [] => true
  | v :: rest => distinct v && distinctItems rest

def distinctEntries : List (Value × Value) → Bool
  | [] => true
  | (k, v) :: rest => !rest.any (fun e => same e.1 k) && distinct v && distinctEntries rest

end

theorem distinctEntries_iff {entries : List (Value × Value)} :
    distinctEntries entries = true ↔
      entries.Pairwise (fun a b => same b.1 a.1 = false) ∧ ∀ e ∈ entries, e.2.distinct = true := by
  induction entries with
  | nil => simp [distinctEntries]
  | cons e rest ih =>
    obtain ⟨k, v⟩ := e
    rw [distinctEntries, Bool.and_eq_true, Bool.and_eq_true, ih, List.pairwise_cons,
      List.forall_mem_cons]
    simp only [Bool.not_eq_true', List.any_eq_false, Bool.not_eq_true]
    constructor
    · rintro ⟨⟨hkey, hv⟩, hkeys, hvs⟩
      exact ⟨⟨hkey, hkeys⟩, hv, hvs⟩
    · rintro ⟨⟨hkey, hkeys⟩, hv, hvs⟩
      exact ⟨⟨hkey, hv⟩, hkeys, hvs⟩

/-! ### Keys that are mappings -/

mutual

/-- No mapping in the value has a key twice, those inside of keys included. -/
def wellKeyed : Value → Bool
  | list items => wellKeyedItems items
  | mapping entries => wellKeyedEntries entries
  | tagged _ v => wellKeyed v
  | null | bool _ | number _ | string _ => true

def wellKeyedItems : List Value → Bool
  | [] => true
  | v :: rest => wellKeyed v && wellKeyedItems rest

def wellKeyedEntries : List (Value × Value) → Bool
  | [] => true
  | (k, v) :: rest =>
    !rest.any (fun e => same e.1 k) && wellKeyed k && wellKeyed v && wellKeyedEntries rest

end

theorem wellKeyedItems_iff {items : List Value} :
    wellKeyedItems items = true ↔ ∀ v ∈ items, v.wellKeyed = true := by
  induction items with
  | nil => simp [wellKeyedItems]
  | cons v rest ih => simp [wellKeyedItems, ih]

theorem wellKeyedEntries_cons {k v : Value} {rest : List (Value × Value)} :
    wellKeyedEntries ((k, v) :: rest) = true ↔
      (∀ e ∈ rest, same e.1 k = false) ∧ k.wellKeyed = true ∧ v.wellKeyed = true ∧
        wellKeyedEntries rest = true := by
  simp [wellKeyedEntries, and_assoc]

theorem wellKeyedEntries_iff {entries : List (Value × Value)} :
    wellKeyedEntries entries = true ↔
      entries.Pairwise (fun a b => same b.1 a.1 = false) ∧
        ∀ e ∈ entries, e.1.wellKeyed = true ∧ e.2.wellKeyed = true := by
  induction entries with
  | nil => simp [wellKeyedEntries]
  | cons e rest ih =>
    rw [wellKeyedEntries_cons, ih, List.pairwise_cons, List.forall_mem_cons]
    constructor
    · intro ⟨hfirst, hk, hv, hkeys, hrest⟩
      exact ⟨⟨hfirst, hkeys⟩, ⟨hk, hv⟩, hrest⟩
    · intro ⟨⟨hfirst, hkeys⟩, ⟨hk, hv⟩, hrest⟩
      exact ⟨hfirst, hk, hv, hkeys, hrest⟩

mutual

theorem distinct_of_wellKeyed {v : Value} (h : v.wellKeyed = true) : v.distinct = true := by
  match v with
  | list items => exact distinctItems_of_wellKeyed h
  | mapping entries => exact distinctEntries_of_wellKeyed h
  | tagged _ v => exact distinct_of_wellKeyed (v := v) h
  | null | bool _ | number _ | string _ => rfl

theorem distinctItems_of_wellKeyed {items : List Value} (h : wellKeyedItems items = true) :
    distinctItems items = true := by
  match items with
  | [] => rfl
  | v :: rest =>
    rw [wellKeyedItems, Bool.and_eq_true] at h
    rw [distinctItems, distinct_of_wellKeyed h.1, distinctItems_of_wellKeyed h.2]
    rfl

theorem distinctEntries_of_wellKeyed {entries : List (Value × Value)}
    (h : wellKeyedEntries entries = true) : distinctEntries entries = true := by
  match entries with
  | [] => rfl
  | (k, v) :: rest =>
    simp only [wellKeyedEntries, Bool.and_eq_true] at h
    obtain ⟨⟨⟨hkey, -⟩, hv⟩, hrest⟩ := h
    rw [distinctEntries, hkey, distinct_of_wellKeyed hv, distinctEntries_of_wellKeyed hrest]
    rfl

end

/-! ### JSON -/

theorem keys_ofJsonMembers {members : List (String × Json)} {entries : List (Value × Value)}
    (h : ofJsonMembers members = some entries) :
    entries.map (·.1) = members.map fun m => string m.1 := by
  induction members generalizing entries with
  | nil =>
    obtain rfl := Option.some.inj h
    rfl
  | cons m rest ih =>
    rw [ofJsonMembers] at h
    dsimp only at h
    split at h
    · cases h
    obtain ⟨v, -, h⟩ := Option.bind_eq_some_iff.mp h
    obtain ⟨ws, hws, h⟩ := Option.bind_eq_some_iff.mp h
    obtain rfl := Option.some.inj h
    rw [List.map_cons, List.map_cons, ih hws]

mutual

theorem wellKeyed_ofJson {j : Json} {v : Value} (h : ofJson j = some v) : v.wellKeyed = true := by
  cases j with
  | arr items =>
    obtain ⟨vs, hvs, rfl⟩ := Option.map_eq_some_iff.mp h
    exact wellKeyedItems_ofJson hvs
  | obj members =>
    obtain ⟨entries, hentries, rfl⟩ := Option.map_eq_some_iff.mp h
    exact wellKeyedEntries_ofJson hentries
  | _ =>
    obtain rfl := Option.some.inj h
    rfl

theorem wellKeyedItems_ofJson {items : List Json} {vs : List Value}
    (h : ofJsonItems items = some vs) : wellKeyedItems vs = true := by
  cases items with
  | nil =>
    obtain rfl := Option.some.inj h
    rfl
  | cons j rest =>
    rw [ofJsonItems] at h
    obtain ⟨v, hv, h⟩ := Option.bind_eq_some_iff.mp h
    obtain ⟨ws, hws, h⟩ := Option.bind_eq_some_iff.mp h
    obtain rfl := Option.some.inj h
    rw [wellKeyedItems, wellKeyed_ofJson hv, wellKeyedItems_ofJson hws]
    rfl

theorem wellKeyedEntries_ofJson {members : List (String × Json)} {entries : List (Value × Value)}
    (h : ofJsonMembers members = some entries) : wellKeyedEntries entries = true := by
  cases members with
  | nil =>
    obtain rfl := Option.some.inj h
    rfl
  | cons m rest =>
    obtain ⟨name, j⟩ := m
    rw [ofJsonMembers] at h
    dsimp only at h
    split at h
    · cases h
    rename_i hname
    obtain ⟨v, hv, h⟩ := Option.bind_eq_some_iff.mp h
    obtain ⟨ws, hws, h⟩ := Option.bind_eq_some_iff.mp h
    obtain rfl := Option.some.inj h
    -- Reading has compared the name with those behind it.
    have hkey : (ws.any fun e => same e.1 (string name)) = false := by
      have hany : (ws.any fun e => same e.1 (string name)) =
          (ws.map (·.1)).any fun k => same k (string name) := by rw [List.any_map]; rfl
      rw [hany, keys_ofJsonMembers hws, List.any_map]
      simp only [Function.comp_def, same]
      exact Bool.eq_false_iff.mpr hname
    rw [wellKeyedEntries, hkey, wellKeyed_ofJson hv, wellKeyedEntries_ofJson hws]
    rfl

end

/-! ### YAML -/

theorem wellKeyed_withTag {tag : Option String} {v w : Value} (h : withTag tag v = some w)
    (hv : v.wellKeyed = true) : w.wellKeyed = true := by
  unfold withTag at h
  split at h
  · obtain rfl := Option.some.inj h
    exact hv
  · split at h
    · cases h
    · split at h
      all_goals
        obtain rfl := Option.some.inj h
        exact hv

theorem wellKeyed_ofPlain {text : String} {v : Value} (h : ofPlain text = some v) :
    v.wellKeyed = true := by
  unfold ofPlain at h
  repeat' split at h
  all_goals
    cases h
    try rfl

theorem wellKeyed_ofScalar {tag : Option String} {text : String} {plain : Bool} {v : Value}
    (h : ofScalar tag text plain = some v) : v.wellKeyed = true := by
  unfold ofScalar at h
  repeat' split at h
  · exact wellKeyed_ofPlain h
  · cases h
    rfl
  · obtain ⟨b, -, rfl⟩ := Option.map_eq_some_iff.mp h
    rfl
  · cases h
    rfl
  · cases h
  · obtain ⟨x, -, rfl⟩ := Option.map_eq_some_iff.mp h
    rfl
  · cases h
    rfl
  · cases h
  · cases h
    rfl

theorem wellKeyed_ofTaggedScalar {tag : Option String} {text : String} {plain : Bool} {v : Value}
    (h : ofTaggedScalar tag text plain = some v) : v.wellKeyed = true := by
  unfold ofTaggedScalar at h
  split at h
  all_goals
    obtain ⟨w, hw, h⟩ := Option.bind_eq_some_iff.mp h
    exact wellKeyed_withTag h (wellKeyed_ofScalar hw)

/-- The entries read so far, last one first. -/
structure WellKeyedSoFar (acc : List (Value × Value)) : Prop where
  apart : acc.Pairwise fun a b => same a.1 b.1 = false
  parts : ∀ e ∈ acc, e.1.wellKeyed = true ∧ e.2.wellKeyed = true

theorem WellKeyedSoFar.reverse {acc : List (Value × Value)} (h : WellKeyedSoFar acc) :
    (mapping acc.reverse).wellKeyed = true := by
  rw [wellKeyed, wellKeyedEntries_iff, List.pairwise_reverse]
  refine ⟨h.apart, ?_⟩
  simpa using h.parts

theorem WellKeyedSoFar.cons {acc : List (Value × Value)} (h : WellKeyedSoFar acc) {k v : Value}
    (hnew : ¬ (acc.any fun e => same k e.1) = true) (hk : k.wellKeyed = true)
    (hv : v.wellKeyed = true) : WellKeyedSoFar ((k, v) :: acc) where
  apart := List.pairwise_cons.mpr ⟨by simpa using hnew, h.apart⟩
  parts := List.forall_mem_cons.mpr ⟨⟨hk, hv⟩, h.parts⟩

theorem wellKeyed_ofNode {anchors : Yaml.Anchors} {limit depth jumps jumps' : Nat} {node : Yaml.Node}
    {v : Value} (h : ofNode anchors limit depth jumps node = some (v, jumps')) :
    v.wellKeyed = true := by
  induction depth generalizing jumps jumps' node v with
  | zero =>
    rw [ofNode] at h
    obtain ⟨⟨node, jumps⟩, -, h⟩ := Option.bind_eq_some_iff.mp h
    cases node with
    | scalar tag text plain =>
      obtain ⟨w, hw, h⟩ := Option.bind_eq_some_iff.mp h
      obtain ⟨rfl, -⟩ := Prod.mk.inj (Option.some.inj h)
      exact wellKeyed_ofTaggedScalar hw
    | _ => cases h
  | succ depth ih =>
    rw [ofNode] at h
    obtain ⟨⟨node, jumps⟩, -, h⟩ := Option.bind_eq_some_iff.mp h
    cases node with
    | scalar tag text plain =>
      obtain ⟨w, hw, h⟩ := Option.bind_eq_some_iff.mp h
      obtain ⟨rfl, -⟩ := Prod.mk.inj (Option.some.inj h)
      exact wellKeyed_ofTaggedScalar hw
    | sequence tag items =>
      obtain ⟨⟨vs, jumps⟩, hvs, h⟩ := Option.bind_eq_some_iff.mp h
      obtain ⟨w, hw, h⟩ := Option.bind_eq_some_iff.mp h
      obtain ⟨rfl, -⟩ := Prod.mk.inj (Option.some.inj h)
      have hall : ∀ v ∈ vs, v.wellKeyed = true := by
        refine Success.foldlM_preserves_some
          (P := fun acc : List Value × Nat => ∀ v ∈ acc.1, v.wellKeyed = true) ?_ (by simp) hvs
        intro acc item acc' hacc hstep
        obtain ⟨⟨v, jumps⟩, hv, hstep⟩ := Option.bind_eq_some_iff.mp hstep
        obtain rfl := Option.some.inj hstep
        exact List.forall_mem_cons.mpr ⟨ih hv, hacc⟩
      apply wellKeyed_withTag hw
      rw [wellKeyed, wellKeyedItems_iff]
      simpa using hall
    | mapping tag entries =>
      obtain ⟨⟨es, jumps⟩, hes, h⟩ := Option.bind_eq_some_iff.mp h
      obtain ⟨w, hw, h⟩ := Option.bind_eq_some_iff.mp h
      obtain ⟨rfl, -⟩ := Prod.mk.inj (Option.some.inj h)
      -- Entries are kept last one first while they are read, so the invariant of the fold is about
      -- the reversed list.
      have hall : WellKeyedSoFar es := by
        refine Success.foldlM_preserves_some
          (P := fun acc : List (Value × Value) × Nat => WellKeyedSoFar acc.1) ?_ ⟨.nil, by simp⟩ hes
        intro acc entry acc' hacc hstep
        obtain ⟨⟨k, jumps⟩, hk, hstep⟩ := Option.bind_eq_some_iff.mp hstep
        dsimp only at hstep
        split at hstep
        · cases hstep
        rename_i hnew
        obtain ⟨⟨v, jumps⟩, hv, hstep⟩ := Option.bind_eq_some_iff.mp hstep
        obtain rfl := Option.some.inj hstep
        exact hacc.cons hnew (ih hk) (ih hv)
      exact wellKeyed_withTag hw hall.reverse
    | _ => cases h

theorem wellKeyed_ofYaml {text : String} {v : Value} (h : ofYaml? text = some v) :
    v.wellKeyed = true := by
  obtain ⟨doc, -, h⟩ := Option.bind_eq_some_iff.mp h
  split at h
  · obtain rfl := Option.some.inj h
    rfl
  · obtain ⟨⟨w, jumps⟩, hw, h⟩ := Option.bind_eq_some_iff.mp h
    obtain rfl := Option.some.inj h
    exact wellKeyed_ofNode hw

theorem distinct_ofJson {j : Json} {v : Value} (h : ofJson j = some v) : v.distinct = true :=
  distinct_of_wellKeyed (wellKeyed_ofJson h)

theorem distinct_ofYaml {text : String} {v : Value} (h : ofYaml? text = some v) :
    v.distinct = true :=
  distinct_of_wellKeyed (wellKeyed_ofYaml h)

end CodeAudit.Value
