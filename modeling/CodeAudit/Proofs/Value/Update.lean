import CodeAudit.Proofs.Value.Without

namespace CodeAudit.Value

/-! ### Paths that part -/

/-- Two paths that go different ways at some point, so that neither leads through the other. -/
inductive Apart : List String → List String → Prop
  | now {name other : String} (h : name ≠ other) (p q : List String) :
      Apart (name :: p) (other :: q)
  | later (name : String) {p q : List String} (h : Apart p q) : Apart (name :: p) (name :: q)

theorem apart_of_incomparable {p q : List String} (h : ¬ p <+: q) (h' : ¬ q <+: p) : Apart p q := by
  induction p generalizing q with
  | nil => exact absurd List.nil_prefix h
  | cons name p ih =>
    cases q with
    | nil => exact absurd List.nil_prefix h'
    | cons other q =>
      by_cases hname : name = other
      · subst hname
        refine .later name (ih (fun hp => h ?_) fun hq => h' ?_)
        · exact List.cons_prefix_cons.mpr ⟨rfl, hp⟩
        · exact List.cons_prefix_cons.mpr ⟨rfl, hq⟩
      · exact .now hname p q

/-- A path that parts from another does not end where it starts. -/
theorem Apart.at?_empty {p q : List String} (h : Apart p q) : (mapping []).at? p = none := by
  cases h with
  | now _ p q => rfl
  | later name _ => rfl

/-! ### One name -/

/-- Whether nothing can be put below the value: it is neither null nor a mapping, tags looked
through. -/
def isSolid (v : Value) : Bool := !v.isNull && v.entries?.isNone

/-- The value with `w` below a name; null gives way to a mapping. -/
def put (v : Value) (name : String) (w : Value) : Value :=
  if v.isNull then mapping [(string name, w)]
  else v.mapEntries (upsert (string name) w fun _ => w)

theorem isName_string_iff {name other : String} :
    (string name).isName other = true ↔ other = name := by
  simp only [isName, beq_iff_eq]
  exact eq_comm

theorem same_string (name : String) (k : Value) : same (string name) k = k.isName name := by
  cases k with
  | string s =>
    simp only [same, isName]
    exact BEq.comm
  | _ => simp [same, isName]

theorem get?_of_isNull {v : Value} (h : v.isNull = true) (name : String) : v.get? name = none := by
  unfold get?
  induction v using isNull.induct with
  | case1 => rfl
  | case2 tag v ih => exact ih h
  | case3 v hnull htagged =>
    cases v with
    | null => exact absurd rfl hnull
    | tagged tag w => exact absurd rfl (htagged tag w)
    | _ => cases h

theorem upsert_of_lookup {name : String} {entries : List (Value × Value)} {w : Value}
    (h : lookup name entries = some w) : upsert (string name) w (fun _ => w) entries = entries := by
  induction entries with
  | nil => cases h
  | cons e rest ih =>
    obtain ⟨k, v⟩ := e
    rw [lookup_cons] at h
    rw [upsert, same_string]
    by_cases hk : k.isName name = true
    · rw [if_pos hk] at h
      rw [if_pos hk, Option.some.inj h]
    · rw [if_neg hk] at h
      rw [if_neg hk, ih h]

theorem mapEntries_eq_self {f : List (Value × Value) → List (Value × Value)} {v : Value}
    {entries : List (Value × Value)} (hentries : v.entries? = some entries)
    (hf : f entries = entries) : v.mapEntries f = v := by
  induction v using mapEntries.induct with
  | case1 es =>
    obtain rfl := Option.some.inj hentries
    rw [mapEntries, hf]
  | case2 tag v ih => rw [mapEntries, ih hentries]
  | case3 v hmapping htagged =>
    cases v with
    | mapping es => exact absurd rfl (hmapping es)
    | tagged tag w => exact absurd rfl (htagged tag w)
    | _ => cases hentries

theorem put_of_get? {v : Value} {name : String} {w : Value} (h : v.get? name = some w) :
    v.put name w = v := by
  obtain ⟨entries, hentries, hlookup⟩ := Option.bind_eq_some_iff.mp h
  have hnull : v.isNull ≠ true := fun hnull => by
    cases (get?_of_isNull hnull name).symm.trans h
  rw [put, if_neg hnull, mapEntries_eq_self hentries (upsert_of_lookup hlookup)]

theorem enterEntries_eq (name : String) (g : Value → Edited Value)
    (entries : List (Value × Value)) :
    editAt.enterEntries name g entries =
      (g ((lookup name entries).getD (mapping []))).map fun w =>
        upsert (string name) w (fun _ => w) entries := by
  induction entries with
  | nil => rfl
  | cons e rest ih =>
    obtain ⟨k, v⟩ := e
    rw [editAt.enterEntries, lookup_cons]
    by_cases hk : k.isName name = true
    · simp only [hk, if_true, Option.getD_some, upsert, same_string]
    · simp only [hk, upsert, same_string, ih]
      rfl

theorem enter_of_entries? (name : String) (g : Value → Edited Value) {v : Value}
    {entries : List (Value × Value)} (hentries : v.entries? = some entries) :
    editAt.enter name g v = (g ((lookup name entries).getD (mapping []))).map fun w =>
      v.mapEntries (upsert (string name) w fun _ => w) := by
  induction v using mapEntries.induct with
  | case1 es =>
    obtain rfl := Option.some.inj hentries
    rw [editAt.enter, enterEntries_eq]
    rfl
  | case2 tag v ih =>
    rw [editAt.enter, ih hentries]
    rfl
  | case3 v hmapping htagged =>
    cases v with
    | mapping es => exact absurd rfl (hmapping es)
    | tagged tag w => exact absurd rfl (htagged tag w)
    | _ => cases hentries

theorem enter_of_no_entries (name : String) (g : Value → Edited Value) {v : Value}
    (hentries : v.entries? = none) :
    editAt.enter name g v = { value := v, reached := false } := by
  induction v using mapEntries.induct with
  | case1 es => cases hentries
  | case2 tag v ih =>
    rw [editAt.enter, ih hentries]
    rfl
  | case3 v hmapping htagged =>
    cases v with
    | mapping es => exact absurd rfl (hmapping es)
    | tagged tag w => exact absurd rfl (htagged tag w)
    | _ => rfl

/-- A change at a path changes what is below the first name, unless nothing can be there. -/
theorem editAt_cons (f : Value → Value) (name : String) (rest : List String) (v : Value) :
    editAt f (name :: rest) v =
      if v.isSolid then { value := v, reached := false }
      else (editAt f rest ((v.get? name).getD (mapping []))).map fun w => v.put name w := by
  rw [editAt]
  cases hnull : v.isNull with
  | true =>
    rw [if_pos rfl, enter_of_entries? name _ (rfl : (mapping []).entries? = some [])]
    simp only [isSolid, put, hnull, get?_of_isNull hnull]
    rfl
  | false =>
    rw [if_neg (by simp)]
    cases hentries : v.entries? with
    | none => simp [enter_of_no_entries name _ hentries, isSolid, hnull, hentries]
    | some entries =>
      simp [enter_of_entries? name _ hentries, isSolid, put, hnull, hentries, get?]

/-- What is put below a name is found there, and nothing else changes. -/
theorem get?_put {v : Value} (h : v.isSolid = false) (name : String) (w : Value) (other : String) :
    (v.put name w).get? other = if other = name then some w else v.get? other := by
  unfold put
  cases hnull : v.isNull with
  | true =>
    rw [if_pos rfl, get?_of_isNull hnull, get?, entries?, Option.bind_some, lookup_cons]
    simp only [isName_string_iff]
    rfl
  | false =>
    obtain ⟨entries, hentries⟩ : ∃ entries, v.entries? = some entries := by
      simpa [isSolid, hnull, Option.isSome_iff_exists] using h
    rw [if_neg (by simp), get?, entries?_mapEntries, get?, hentries]
    simp only [Option.map_some, Option.bind_some, lookup_upsert, isName_string_iff]
    split
    next => cases lookup other entries <;> rfl
    next => rfl

theorem isMapping_put {v : Value} (h : v.isNull = true ∨ v.isMapping = true) (name : String)
    (w : Value) : (v.put name w).isMapping = true := by
  unfold put
  split
  next => rfl
  next hnull =>
    obtain ⟨es, rfl⟩ := exists_of_isMapping (h.resolve_left hnull)
    rfl

/-! ### A path of names -/

/-- On the way to the end of a path is a value that nothing can be put below. -/
def Barred (v : Value) (p : List String) : Prop :=
  ∃ q w, q <+: p ∧ q ≠ p ∧ v.at? q = some w ∧ w.isSolid = true

theorem not_barred_nil (v : Value) : ¬ v.Barred [] := by
  rintro ⟨q, w, hq, hne, -⟩
  exact hne (List.prefix_nil.mp hq)

theorem barred_cons {v : Value} {name : String} {rest : List String} :
    v.Barred (name :: rest) ↔
      v.isSolid = true ∨ ∃ w, v.get? name = some w ∧ w.Barred rest := by
  constructor
  · rintro ⟨q, w, hq, hne, hw, hsolid⟩
    cases q with
    | nil =>
      obtain rfl := Option.some.inj hw
      exact .inl hsolid
    | cons head tail =>
      obtain ⟨rfl, htail⟩ := List.cons_prefix_cons.mp hq
      obtain ⟨below, hbelow, hw⟩ := Option.bind_eq_some_iff.mp hw
      exact .inr ⟨below, hbelow, tail, w, htail, fun heq => hne (by rw [heq]), hw, hsolid⟩
  · rintro (hsolid | ⟨below, hbelow, q, w, hq, hne, hw, hsolid⟩)
    · exact ⟨[], v, List.nil_prefix, by simp, rfl, hsolid⟩
    · refine ⟨name :: q, w, List.cons_prefix_cons.mpr ⟨rfl, hq⟩, by simpa using hne, ?_, hsolid⟩
      rw [at?, hbelow]
      exact hw

theorem not_barred_empty (p : List String) : ¬ (mapping []).Barred p := by
  cases p with
  | nil => exact not_barred_nil _
  | cons name rest =>
    rw [barred_cons]
    rintro (h | ⟨w, hw, -⟩)
    · cases h
    · cases hw

/-- Where the way is barred, nothing was null or missing before: the change has done nothing when it
is given up. -/
theorem editAt_of_barred (f : Value → Value) {p : List String} {v : Value} (h : v.Barred p) :
    editAt f p v = { value := v, reached := false } := by
  induction p generalizing v with
  | nil => exact absurd h (not_barred_nil v)
  | cons name rest ih =>
    rw [editAt_cons]
    split
    next => rfl
    next hsolid =>
      obtain ⟨w, hw, hbarred⟩ := (barred_cons.mp h).resolve_left hsolid
      rw [hw, Option.getD_some, ih hbarred, Edited.map, put_of_get? hw]

theorem reached_editAt {f : Value → Value} {p : List String} {v : Value} (h : ¬ v.Barred p) :
    (editAt f p v).reached = true := by
  induction p generalizing v with
  | nil => rfl
  | cons name rest ih =>
    obtain ⟨hsolid, hrest⟩ := not_or.mp (mt barred_cons.mpr h)
    rw [editAt_cons, if_neg hsolid]
    refine ih ?_
    cases hbelow : v.get? name with
    | none => exact not_barred_empty rest
    | some w => exact fun hbarred => hrest ⟨w, hbelow, hbarred⟩

/-- The value changed at a path, if the change gets to the end of it. -/
def updateAt (f : Value → Value) (p : List String) (v : Value) : Option Value :=
  let edited := editAt f p v
  if edited.reached then some edited.value else none

theorem updateAt_cons (f : Value → Value) (name : String) (rest : List String) (v : Value) :
    updateAt f (name :: rest) v =
      if v.isSolid then none
      else (updateAt f rest ((v.get? name).getD (mapping []))).map fun w => v.put name w := by
  rw [updateAt, editAt_cons, updateAt]
  split
  next => rfl
  next =>
    generalize editAt f rest ((v.get? name).getD (mapping [])) = edited
    obtain ⟨w, _ | _⟩ := edited <;> rfl

theorem updateAt_of_not_barred {f : Value → Value} {p : List String} {v : Value}
    (h : ¬ v.Barred p) : updateAt f p v = some (editAt f p v).value := by
  rw [updateAt, reached_editAt h, if_pos rfl]

theorem updateAt_eq_none_iff {f : Value → Value} {p : List String} {v : Value} :
    updateAt f p v = none ↔ v.Barred p := by
  constructor
  · intro h
    by_contra hfree
    cases h.symm.trans (updateAt_of_not_barred hfree)
  · intro h
    rw [updateAt, editAt_of_barred f h]
    rfl

section Change

variable {f : Value → Value}

theorem of_updateAt_cons {name : String} {rest : List String} {v v' : Value}
    (h : updateAt f (name :: rest) v = some v') :
    ∃ w, updateAt f rest ((v.get? name).getD (mapping [])) = some w ∧ v' = v.put name w ∧
      v.isSolid = false := by
  rw [updateAt_cons] at h
  split at h
  next => cases h
  next hsolid =>
    obtain ⟨w, hw, rfl⟩ := Option.map_eq_some_iff.mp h
    exact ⟨w, hw, rfl, by simpa using hsolid⟩

theorem at?_put_self {v : Value} (h : v.isSolid = false) (name : String) (w : Value)
    (rest : List String) : (v.put name w).at? (name :: rest) = w.at? rest := by
  rw [at?, get?_put h, if_pos rfl, Option.bind_some]

theorem at?_updateAt_self {p : List String} {v v' : Value} (h : updateAt f p v = some v') :
    v'.at? p = some (f ((v.at? p).getD (mapping []))) := by
  induction p generalizing v v' with
  | nil =>
    obtain rfl := Option.some.inj h
    rfl
  | cons name rest ih =>
    obtain ⟨w, hw, rfl, hsolid⟩ := of_updateAt_cons h
    rw [at?_put_self hsolid, ih hw, at?]
    cases v.get? name with
    | some below => rfl
    | none => cases rest <;> rfl

theorem at?_updateAt_of_apart {p q : List String} (hq : Apart q p) {v v' : Value}
    (h : updateAt f p v = some v') : v'.at? q = v.at? q := by
  induction hq generalizing v v' with
  | now hne q p =>
    obtain ⟨w, -, rfl, hsolid⟩ := of_updateAt_cons h
    rw [at?, at?, get?_put hsolid, if_neg hne]
  | later name hq ih =>
    obtain ⟨w, hw, rfl, hsolid⟩ := of_updateAt_cons h
    rw [at?_put_self hsolid, ih hw, at?]
    cases v.get? name with
    | some below => rfl
    | none => exact hq.at?_empty

theorem isMapping_of_updateAt {p q : List String} (hq : q <+: p) (hne : q ≠ p) {v v' : Value}
    (h : updateAt f p v = some v')
    (hold : ∀ w, v.at? q = some w → w.isNull = true ∨ w.isMapping = true) :
    ∃ es, v'.at? q = some (mapping es) := by
  induction q generalizing p v v' with
  | nil =>
    obtain ⟨name, rest, rfl⟩ := List.exists_cons_of_ne_nil (Ne.symm hne)
    obtain ⟨w, -, rfl, -⟩ := of_updateAt_cons h
    obtain ⟨es, hes⟩ := exists_of_isMapping (isMapping_put (hold v rfl) name w)
    exact ⟨es, congrArg some hes⟩
  | cons name q ih =>
    obtain ⟨rest, rfl⟩ := hq
    obtain ⟨w, hw, rfl, hsolid⟩ := of_updateAt_cons h
    rw [at?_put_self hsolid]
    refine ih (List.prefix_append q rest) (by simpa using hne) hw fun u hu => ?_
    cases hbelow : v.get? name with
    | some below =>
      rw [hbelow] at hu
      exact hold u (by rw [at?, hbelow]; exact hu)
    | none =>
      -- Below a new mapping there is nothing but the mapping itself.
      rw [hbelow] at hu
      cases q with
      | nil =>
        obtain rfl := Option.some.inj hu
        exact .inr rfl
      | cons other q => cases hu

end Change

/-! ### A value laid down at a path -/

theorem at?_nest_self (v : Value) (p : List String) : (v.nest p).at? p = some v := by
  induction p with
  | nil => rfl
  | cons name rest ih =>
    rw [nest, at?_mapping_cons, lookup_cons, if_pos (isName_string_iff.mpr rfl)]
    exact ih

theorem at?_nest_of_apart (v : Value) {p q : List String} (h : Apart q p) :
    (v.nest p).at? q = none := by
  induction h with
  | now hne q p =>
    rw [nest, at?_mapping_cons, lookup_cons, if_neg (mt isName_string_iff.mp hne)]
    rfl
  | later name _ ih =>
    rw [nest, at?_mapping_cons, lookup_cons, if_pos (isName_string_iff.mpr rfl)]
    exact ih

theorem lookup_mergeEntries_singleton (name : String) (w : Value) (lower : List (Value × Value))
    (other : String) :
    lookup other (mergeEntries lower [(string name, w)]) =
      if other = name then some (((lookup other lower).map fun old => old.merge w).getD w)
      else lookup other lower := by
  rw [mergeEntries, mergeEntries, lookup_upsert]
  simp only [isName_string_iff]

section Nest

variable {v : Value}

theorem at?_merge_nest_self (hnull : v ≠ null) (hmapping : v.isMapping = false) (p : List String)
    (base : Value) : (base.merge (v.nest p)).at? p = some v := by
  induction p generalizing base with
  | nil =>
    rw [nest, merge_of_leaf hnull hmapping]
    rfl
  | cons name rest ih =>
    cases hbase : base.isMapping with
    | false =>
      rw [nest, merge_onto_leaf hbase]
      exact at?_nest_self v (name :: rest)
    | true =>
      obtain ⟨lower, rfl⟩ := exists_of_isMapping hbase
      rw [nest, merge_mapping, at?_mapping_cons, lookup_mergeEntries_singleton, if_pos rfl,
        Option.bind_some]
      cases lookup name lower with
      | none => exact at?_nest_self v rest
      | some old => exact ih old

/-- At a path that parts from it nothing changes, as long as no tag on the way hides a mapping. -/
theorem at?_merge_nest_of_apart {p q : List String} (hq : Apart q p) {base : Value}
    (hbase : base.Untagged p) : (base.merge (v.nest p)).at? q = base.at? q := by
  induction hq generalizing base with
  | now hne q p =>
    cases hmapping : base.isMapping with
    | false =>
      rw [at?_cons_of_leaf hmapping hbase.ne_tagged, nest, merge_onto_leaf hmapping]
      exact at?_nest_of_apart v (.now hne q p)
    | true =>
      obtain ⟨lower, rfl⟩ := exists_of_isMapping hmapping
      rw [nest, merge_mapping, at?_mapping_cons, lookup_mergeEntries_singleton, if_neg hne]
      rfl
  | later name hq ih =>
    cases hmapping : base.isMapping with
    | false =>
      rw [at?_cons_of_leaf hmapping hbase.ne_tagged, nest, merge_onto_leaf hmapping]
      exact at?_nest_of_apart v (.later name hq)
    | true =>
      obtain ⟨lower, rfl⟩ := exists_of_isMapping hmapping
      rw [nest, merge_mapping, at?_mapping_cons, at?_mapping_cons, lookup_mergeEntries_singleton,
        if_pos rfl, Option.bind_some]
      cases hlower : lookup name lower with
      | none => exact at?_nest_of_apart v hq
      | some old => exact ih (hbase.of_lookup hlower)

end Nest

end CodeAudit.Value
