import CodeAudit.Proofs.Value.Update

namespace CodeAudit.Config

theorem merge_of_barred {c : Config} (h : c.root.Barred c.scope) (other : Config) :
    c.merge other = c := by
  rw [merge, Value.editAt_of_barred _ h]

theorem merge_of_not_barred {c : Config} (h : ¬ c.root.Barred c.scope) (other : Config) :
    ∃ root, Value.updateAt (fun v => v.merge (other.node?.getD .null)) c.scope c.root = some root ∧
      c.merge other = { c with root } :=
  ⟨_, Value.updateAt_of_not_barred h, rfl⟩

theorem root_set {c : Config} (hscope : c.scope = []) {v : Value} (hnull : v ≠ .null)
    (path : List String) : (c.set path v).root = c.root.merge (v.nest path) := by
  have hnest : ofValue (v.nest path) = { root := v.nest path } := by
    cases path with
    | nil =>
      cases v with
      | null => exact absurd rfl hnull
      | _ => rfl
    | cons name rest => rfl
  rw [set, hnest, merge, hscope]
  rfl

/-- A merge at a scope changes nothing when the way to the scope is barred. Otherwise the scope
holds what it held, or an empty mapping, with the other value on top; what was missing or null on
the way is a mapping; and paths that part from the scope look up as before. A value that is neither
null nor a mapping and is set at a path without tags is found there, and paths that part from it
look up as before. -/
theorem merge_touches_only_scope (c : Config) :
    (∀ other : Config,
      (c.root.Barred c.scope → c.merge other = c) ∧
      (¬ c.root.Barred c.scope →
        (c.merge other).scope = c.scope ∧
        (c.merge other).node? =
          some ((c.node?.getD (.mapping [])).merge (other.node?.getD .null)) ∧
        (∀ q, q <+: c.scope → q ≠ c.scope → (∀ w, c.root.at? q = some w → w.isNull = true) →
          ∃ es, (c.merge other).root.at? q = some (.mapping es)) ∧
        ∀ p, ¬ p <+: c.scope → ¬ c.scope <+: p → (c.merge other).root.at? p = c.root.at? p)) ∧
    ∀ path v, c.scope = [] → v ≠ .null → v.isMapping = false → c.root.Untagged path →
      (c.set path v).root.at? path = some v ∧
      ∀ p, ¬ p <+: path → ¬ path <+: p → (c.set path v).root.at? p = c.root.at? p := by
  refine ⟨fun other => ⟨fun h => merge_of_barred h other, fun h => ?_⟩, ?_⟩
  · obtain ⟨root, hroot, hmerge⟩ := merge_of_not_barred h other
    rw [hmerge]
    refine ⟨rfl, Value.at?_updateAt_self hroot, fun q hq hne hold => ?_, fun p hp hp' => ?_⟩
    · exact Value.isMapping_of_updateAt hq hne hroot fun w hw => .inl (hold w hw)
    · exact Value.at?_updateAt_of_apart (Value.apart_of_incomparable hp hp') hroot
  · intro path v hscope hnull hmapping htags
    rw [root_set hscope hnull]
    refine ⟨Value.at?_merge_nest_self hnull hmapping path c.root, fun p hp hp' => ?_⟩
    exact Value.at?_merge_nest_of_apart (Value.apart_of_incomparable hp hp') htags

/-! ### A scope below null, and one below a number -/

/-- A null where a rule set could be, a tagged mapping, and a number. -/
def partlyFilled : Config where
  root := .mapping [
    (.string "complexity", .null),
    (.string "engine", .tagged "t" (.mapping [(.string "jobs", .number (.int 4))])),
    (.string "style", .number (.int 5))]

def longMethod : Config := (partlyFilled.sub "complexity").sub "LongMethod"

def naming : Config := (partlyFilled.sub "style").sub "Naming"

def threshold : Value := .mapping [(.string "threshold", .number (.int 40))]

theorem not_barred_longMethod : ¬ longMethod.root.Barred longMethod.scope := by
  rw [← Value.updateAt_eq_none_iff (f := id)]
  decide

theorem barred_naming : naming.root.Barred naming.scope :=
  Value.updateAt_eq_none_iff.mp (rfl : Value.updateAt id naming.scope naming.root = none)

theorem untagged_complexity : partlyFilled.root.Untagged ["complexity", "active"] := by
  intro q hq tag w h
  simp only [List.prefix_cons_iff, List.prefix_nil] at hq
  rcases hq with rfl | ⟨-, rfl, rfl | ⟨-, rfl, rfl⟩⟩ <;> cases h

/-- Both ways to write below the null make a mapping of it and leave the number of jobs behind its
tag; below the number nothing is written. -/
theorem merge_touches_only_scope_partlyFilled :
    ¬ longMethod.root.Barred longMethod.scope ∧
    (longMethod.merge (.ofValue threshold)).node? = some threshold ∧
    (∃ es, (longMethod.merge (.ofValue threshold)).root.at? ["complexity"] =
      some (.mapping es)) ∧
    (longMethod.merge (.ofValue threshold)).root.at? ["engine", "jobs"] =
      some (.number (.int 4)) ∧
    naming.root.Barred naming.scope ∧ naming.merge (.ofValue threshold) = naming ∧
    partlyFilled.root.Untagged ["complexity", "active"] ∧
    (partlyFilled.set ["complexity", "active"] (.bool false)).root.at? ["complexity", "active"] =
      some (.bool false) ∧
    (partlyFilled.set ["complexity", "active"] (.bool false)).root.at? ["engine", "jobs"] =
      some (.number (.int 4)) := by
  obtain ⟨-, hnode, hway, hframe⟩ :=
    ((merge_touches_only_scope longMethod).1 (.ofValue threshold)).2 not_barred_longMethod
  obtain ⟨hset, hsetFrame⟩ := (merge_touches_only_scope partlyFilled).2 ["complexity", "active"]
    (.bool false) rfl (by simp) rfl untagged_complexity
  refine ⟨not_barred_longMethod, hnode, hway ["complexity"] ?_ ?_ ?_, ?_, barred_naming,
    ((merge_touches_only_scope naming).1 (.ofValue threshold)).1 barred_naming,
    untagged_complexity, hset, ?_⟩
  · exact List.prefix_append ["complexity"] ["LongMethod"]
  · decide
  · intro w hw
    obtain rfl := Option.some.inj hw
    rfl
  · exact hframe ["engine", "jobs"] (by decide) (by decide)
  · exact hsetFrame ["engine", "jobs"] (by decide) (by decide)

end CodeAudit.Config
