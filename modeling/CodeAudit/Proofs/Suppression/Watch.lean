import CodeAudit.Builtin.Guard
import CodeAudit.Proofs.Suppression.MarkerNames
import CodeAudit.Proofs.Tree.Made

namespace CodeAudit

/-! ### Joined texts -/

namespace Text

theorem infix_intercalate {sep x : String} {xs : List String} (h : x ∈ xs) :
    x.toList <:+: (sep.intercalate xs).toList := by
  induction xs with
  | nil => cases h
  | cons y rest ih =>
    cases rest with
    | nil => simp [List.mem_singleton.mp h]
    | cons z rest =>
      rw [String.intercalate_cons_cons, String.toList_append, String.toList_append]
      rcases List.mem_cons.mp h with rfl | h
      · exact ⟨[], sep.toList ++ (sep.intercalate (z :: rest)).toList, by simp⟩
      · exact (ih h).trans (List.suffix_append _ _).isInfix

theorem mem_intercalate {sep : String} {c : Char} {xs : List String}
    (h : c ∈ (sep.intercalate xs).toList) : c ∈ sep.toList ∨ ∃ x ∈ xs, c ∈ x.toList := by
  induction xs with
  | nil => simp at h
  | cons y rest ih =>
    cases rest with
    | nil => exact .inr ⟨y, List.mem_cons_self, by simpa using h⟩
    | cons z rest =>
      rw [String.intercalate_cons_cons, String.toList_append, String.toList_append,
        List.mem_append, List.mem_append] at h
      rcases h with (h | h) | h
      · exact .inr ⟨y, List.mem_cons_self, h⟩
      · exact .inl h
      · rcases ih h with hsep | ⟨x, hx, hc⟩
        · exact .inl hsep
        · exact .inr ⟨x, List.mem_cons_of_mem y hx, hc⟩

end Text

namespace Builtin

/-! ### What an argument names -/

/-- A name that is not made of parts. -/
def Unqualified (name : String) : Prop := ∀ c ∈ name.toList, c ≠ ':' ∧ c ≠ '.'

instance (name : String) : Decidable (Unqualified name) :=
  decidable_of_iff (name.toList.all fun c => c != ':' && c != '.') (by simp [Unqualified])

theorem toList_markedRule (argument : String) :
    (markedRule argument).toList =
      (Marker.bareName argument).toList.rtakeWhile fun c => c != ':' && c != '.' := by
  rw [markedRule, String.toList_ofList, List.rtakeWhile]

theorem unqualified_markedRule (argument : String) : Unqualified (markedRule argument) := by
  intro c hc
  rw [toList_markedRule] at hc
  simpa using List.mem_rtakeWhile_imp hc

/-- An argument that is read as one of the names of a rule names that rule, if the rule's own name
is not made of parts. -/
theorem markedRule_eq {argument ruleSet rule : String} (hrule : Unqualified rule)
    (h : Marker.bareName argument ∈ rule :: MarkerTargets.namesOf ruleSet rule) :
    markedRule argument = rule := by
  have hkept : ∀ c ∈ rule.toList, (c != ':' && c != '.') = true := by
    intro c hc
    simpa using hrule c hc
  -- Counted from the end, the rule is taken whole and the separator before it ends the name.
  have hbehind : ∀ (front : List Char) {sep : Char}, (sep != ':' && sep != '.') = false →
      (front ++ [sep] ++ rule.toList).rtakeWhile (fun c => c != ':' && c != '.') =
        rule.toList := by
    intro front sep hsep
    have hreverse : (front ++ [sep] ++ rule.toList).reverse =
        rule.toList.reverse ++ sep :: front.reverse := by simp
    rw [List.rtakeWhile, hreverse, List.takeWhile_append_of_pos (by simpa using hkept),
      List.takeWhile_cons_of_neg (by simp [hsep]), List.append_nil, List.reverse_reverse]
  rw [← String.toList_inj, toList_markedRule]
  simp only [MarkerTargets.namesOf, List.mem_cons, List.not_mem_nil, or_false] at h
  rcases h with h | h | h
  · rw [h]
    exact List.rtakeWhile_eq_self_iff.mpr hkept
  · rw [h, String.toList_append, String.toList_append]
    exact hbehind ruleSet.toList rfl
  · rw [h, String.toList_append, String.toList_append]
    exact hbehind ruleSet.toList rfl

/-! ### What is reported -/

/-- Keeping first mentions only loses no text. -/
theorem mem_foldl_distinct {x : String} {xs seen : List String} :
    x ∈ xs.foldl (fun seen r => if seen.contains r then seen else seen ++ [r]) seen ↔
      x ∈ seen ∨ x ∈ xs := by
  induction xs generalizing seen with
  | nil => simp
  | cons y rest ih =>
    rw [List.foldl_cons, ih]
    split
    next hy =>
      have hmem : y ∈ seen := List.contains_iff_mem.mp hy
      grind
    next => grind

theorem mem_forbiddenOn_iff {rules : List String} {n : Node} {x : String} :
    x ∈ forbiddenOn rules n ↔
      x ∈ rules ∧ ∃ a ∈ (n.marks.filter fun a => Marker.markNames.contains a.name).flatMap (·.args),
        markedRule a = x := by
  unfold forbiddenOn
  rw [mem_foldl_distinct]
  simp only [List.not_mem_nil, false_or, List.mem_filter, List.mem_map, List.contains_iff_mem]
  exact and_comm

theorem of_forbiddenMessage {rules : List String} {m : String}
    (h : forbiddenMessage rules = some m) :
    ∃ lead, lead ∈ ["Cannot @Suppress rule ", "Cannot @Suppress rules "] ∧
      m = lead ++ ", ".intercalate (rules.map quoted) ++ " due to the current configuration." := by
  unfold forbiddenMessage at h
  split at h
  next => cases h
  next rule =>
    obtain rfl := Option.some.inj h
    exact ⟨_, List.mem_cons_self, by simp⟩
  next =>
    obtain rfl := Option.some.inj h
    exact ⟨_, by simp, rfl⟩

theorem exists_forbiddenMessage {rules : List String} (h : rules ≠ []) :
    ∃ m, forbiddenMessage rules = some m := by
  unfold forbiddenMessage
  split
  next => exact absurd rfl h
  next => exact ⟨_, rfl⟩
  next => exact ⟨_, rfl⟩

theorem toList_quoted (x : String) : (quoted x).toList = '"' :: (x.toList ++ ['"']) := by
  rw [quoted, String.toList_append, String.toList_append, List.append_assoc]
  rfl

theorem quoted_of_mem {rules : List String} {m x : String} (h : forbiddenMessage rules = some m)
    (hx : x ∈ rules) : (quoted x).toList <:+: m.toList := by
  obtain ⟨lead, -, rfl⟩ := of_forbiddenMessage h
  have hbody : (quoted x).toList <:+: (", ".intercalate (rules.map quoted)).toList :=
    Text.infix_intercalate (List.mem_map_of_mem hx)
  rw [String.toList_append, String.toList_append]
  exact hbody.trans ((List.suffix_append _ _).isInfix.trans (List.prefix_append _ _).isInfix)

theorem toList_forbiddenMessage {rules : List String} {m : String}
    (hrules : ∀ r ∈ rules, Unqualified r) (h : forbiddenMessage rules = some m) :
    ∃ front, m.toList = front ++ ['.'] ∧ ∀ c ∈ front, c ≠ ':' ∧ c ≠ '.' := by
  obtain ⟨lead, hlead, rfl⟩ := of_forbiddenMessage h
  -- The only dot is the last character of the fixed end.
  have hend : " due to the current configuration." =
      " due to the current configuration" ++ "." := by decide
  refine ⟨(lead ++ ", ".intercalate (rules.map quoted) ++
    " due to the current configuration").toList, ?_, ?_⟩
  · rw [hend, ← String.append_assoc, String.toList_append]
    rfl
  · intro c hc
    rw [String.toList_append, String.toList_append, List.mem_append, List.mem_append] at hc
    rcases hc with (hc | hc) | hc
    · simp only [List.mem_cons, List.not_mem_nil, or_false] at hlead
      rcases hlead with rfl | rfl
      · exact (by decide : Unqualified "Cannot @Suppress rule ") c hc
      · exact (by decide : Unqualified "Cannot @Suppress rules ") c hc
    · rcases Text.mem_intercalate hc with hsep | ⟨y, hy, hc⟩
      · exact (by decide : Unqualified ", ") c hsep
      · obtain ⟨r, hr, rfl⟩ := List.mem_map.mp hy
        rw [toList_quoted, List.mem_cons, List.mem_append, List.mem_singleton] at hc
        rcases hc with rfl | hc | rfl
        · decide
        · exact hrules r hr c hc
        · decide
    · exact (by decide : Unqualified " due to the current configuration") c hc

theorem unqualified_of_quoted {rules : List String} {m x : String}
    (hrules : ∀ r ∈ rules, Unqualified r) (h : forbiddenMessage rules = some m)
    (hx : (quoted x).toList <:+: m.toList) : Unqualified x := by
  obtain ⟨front, hm, hfront⟩ := toList_forbiddenMessage hrules h
  obtain ⟨before, after, hsplit⟩ := hx
  -- The closing quote keeps the name away from the last dot.
  have hinside : (before ++ '"' :: x.toList) ++ ('"' :: after).dropLast = front := by
    have hdrop : (front ++ ['.']).dropLast = front := List.dropLast_concat
    rw [← List.dropLast_append_of_ne_nil (List.cons_ne_nil _ _), ← hdrop, ← hm, ← hsplit,
      toList_quoted]
    simp
  intro c hc
  refine hfront c ?_
  rw [← hinside]
  simp [hc]

end Builtin

/-! ### What the guard sees -/

theorem RuleContext.mem_report_iff {ctx : RuleContext} {message : Node → Option String}
    {f : Finding} :
    f ∈ ctx.report message ↔
      ∃ id ∈ ctx.tree.walk, ∃ n, ctx.tree.node? id = some n ∧
        ∃ m, message n = some m ∧ f = ctx.finding id m := by
  unfold RuleContext.report
  rw [List.mem_filterMap]
  simp only [Option.bind_eq_some_iff, Option.map_eq_some_iff, eq_comm (a := f)]

theorem Marker.mem_argumentsOn_iff {t : Tree} {id : NodeId} {a : String} :
    a ∈ argumentsOn t id ↔ ∃ n, t.node? id = some n ∧
      a ∈ (n.marks.filter fun a => markNames.contains a.name).flatMap (·.args) := by
  unfold argumentsOn
  split
  next h => simp [h]
  next n h => simp [h]

namespace Builtin

/-- A marker that addresses a listed rule by one of its own names is reported, with the rule in
quotes, exactly when the walk comes by its node and the rule's name has no parts. -/
theorem guard_sees_marker_iff {d : Descriptor} {rules : List String} (hlisted : d.ruleId ∈ rules)
    (ctx : RuleContext) {id : NodeId} {a : String} (ha : a ∈ Marker.argumentsOn ctx.tree id)
    (hname : Marker.bareName a ∈ d.ruleId :: MarkerTargets.namesOf d.ruleSetId d.ruleId) :
    (MarkerTargets.ofRule d).matchedBy a = true ∧
    ∃ found, (forbiddenSuppress rules).visit ctx = .ok found ∧
      ((∃ f ∈ found, f.entity.node = some id ∧ (quoted d.ruleId).toList <:+: f.message.toList) ↔
        id ∈ ctx.tree.walk ∧ Unqualified d.ruleId) ∧
      (ctx.tree.Made → id ∈ ctx.tree.walk) := by
  obtain ⟨n, hn, hmarked⟩ := Marker.mem_argumentsOn_iff.mp ha
  refine ⟨?_, _, rfl, ⟨?_, ?_⟩, ?_⟩
  · refine MarkerTargets.matchedBy_ofRule_iff.mpr (.inr ?_)
    simp only [MarkerTargets.namesOf, List.mem_cons, List.not_mem_nil, or_false] at hname
    rcases hname with h | h | h
    · exact h ▸ .rule
    · exact h ▸ .dotted
    · exact h ▸ .colon
  · rintro ⟨f, hf, hnode, hquoted⟩
    obtain ⟨id', hwalk, n', hn', m, hm, rfl⟩ := RuleContext.mem_report_iff.mp hf
    obtain rfl : id' = id := Option.some.inj hnode
    -- Whatever the guard names is what it kept of an argument, which has no parts.
    refine ⟨hwalk, unqualified_of_quoted ?_ hm hquoted⟩
    intro r hr
    obtain ⟨-, b, -, rfl⟩ := mem_forbiddenOn_iff.mp hr
    exact unqualified_markedRule b
  · rintro ⟨hwalk, hplain⟩
    have hmem : d.ruleId ∈ forbiddenOn rules n :=
      mem_forbiddenOn_iff.mpr ⟨hlisted, a, hmarked, markedRule_eq hplain hname⟩
    obtain ⟨m, hm⟩ := exists_forbiddenMessage (List.ne_nil_of_mem hmem)
    exact ⟨ctx.finding id m, RuleContext.mem_report_iff.mpr ⟨id, hwalk, n, hn, m, hm, rfl⟩, rfl,
      quoted_of_mem hm hmem⟩
  · intro hmade
    exact hmade.mem_walk (Array.getElem?_eq_some_iff.mp hn).1

/-! ### A rule with a name in parts -/

namespace PartedName

def rule (name : String) : Descriptor := { ruleSetId := "style", ruleId := name, baseId := name }

def outline : Outline :=
  .node .file none [{ name := "Suppress", args := ["style:Length", "frost:naming.Case"] }] {} []

def context : RuleContext where
  tree := .ofOutline ⟨"A.kt"⟩ outline
  descriptor :=
    { ruleSetId := "guard", ruleId := "ForbiddenSuppress", baseId := "ForbiddenSuppress" }
  config := { root := .mapping [] }

end PartedName

open PartedName in
/-- Both rules are listed and both are silenced; only the one without parts is reported. -/
theorem guard_misses_parted_name :
    (MarkerTargets.ofRule (rule "Length")).matchedBy "style:Length" = true ∧
    (MarkerTargets.ofRule (rule "naming.Case")).matchedBy "frost:naming.Case" = true ∧
    ∃ found, (forbiddenSuppress ["Length", "naming.Case"]).visit context = .ok found ∧
      (∃ f ∈ found, f.entity.node = some 0 ∧ (quoted "Length").toList <:+: f.message.toList) ∧
      ¬ ∃ f ∈ found,
        f.entity.node = some 0 ∧ (quoted "naming.Case").toList <:+: f.message.toList := by
  have hmade : context.tree.Made := .nested ⟨"A.kt"⟩ outline
  have hlength : "style:Length" ∈ Marker.argumentsOn context.tree 0 := by decide +kernel
  have hcase : "frost:naming.Case" ∈ Marker.argumentsOn context.tree 0 := by decide +kernel
  obtain ⟨hsilenced, found, hfound, hsees, hwalk⟩ :=
    guard_sees_marker_iff (d := rule "Length") (List.mem_cons_self (l := ["naming.Case"]))
      context hlength (by decide +kernel)
  obtain ⟨hsilenced', found', hfound', hmisses, -⟩ :=
    guard_sees_marker_iff (d := rule "naming.Case")
      (List.mem_cons_of_mem "Length" List.mem_cons_self) context hcase (by decide +kernel)
  obtain rfl : found = found' := Except.ok.inj (hfound.symm.trans hfound')
  have hseen := hsees.mpr ⟨hwalk hmade, by decide⟩
  have hparted : ¬ Unqualified "naming.Case" := by decide
  exact ⟨hsilenced, hsilenced', found, hfound, hseen, fun h => hparted (hmisses.mp h).2⟩

end Builtin

end CodeAudit
