import CodeAudit.Proofs.Engine.FileSwitch
import Mathlib.Data.List.Find

namespace CodeAudit

/-! ### Nodes that silence -/

/-- A node that silences a rule for all that is inside it: by a marker that addresses the rule, as a
declaration with one of the listed marks, or as a function with one of the listed names. -/
inductive Node.Silences (n : Node) (d : Descriptor) (marked functions : List String) : Prop
  | byMarker {a : Mark} {argument : String} (ha : a ∈ n.marks) (hname : a.name ∈ Marker.markNames)
      (hargument : argument ∈ a.args)
      (hmatched : (MarkerTargets.ofRule d).matchedBy argument = true)
  | byMark {a : Mark} (hdeclaration : n.kind.isDeclaration = true) (ha : a ∈ n.marks)
      (hlisted : a.name ∈ marked ∨ Suppressor.simpleName a.name ∈ marked)
  | byName {name : String} (hkind : n.kind = .function) (hname : n.name? = some name)
      (hlisted : name ∈ functions)

/-- The node as suppression sees it: without its place in the file and in the tree. -/
def Node.detached (n : Node) : Node :=
  { kind := n.kind, givenName := n.givenName, marks := n.marks }

/-- A node and the nodes around it, innermost first. -/
def Tree.surroundings (t : Tree) (id : NodeId) : List Node := (t.ancestors id).filterMap t.node?

theorem Tree.any_ancestors (t : Tree) (id : NodeId) (test : Node → Bool) :
    ((t.ancestors id).any fun m => (t.node? m).any test) = (t.surroundings id).any test := by
  unfold surroundings
  induction t.ancestors id with
  | nil => rfl
  | cons m rest ih =>
    rw [List.any_cons, ih]
    cases h : t.node? m with
    | none => rw [List.filterMap_cons_none h]; rfl
    | some n => rw [List.filterMap_cons_some h, List.any_cons]; rfl

theorem Tree.Made.mem_surroundings {t : Tree} (ht : t.Made) {id : Nat} (hid : id < t.size)
    {n : Node} :
    n ∈ t.surroundings id ↔ ∃ m, t.Within m id ∧ t.node? m = some n := by
  unfold surroundings
  rw [List.mem_filterMap]
  exact exists_congr fun m => and_congr_left' (mem_ancestors_iff ht.linked hid)

namespace Suppressor

/-- Whether a suppressor claims all findings inside a node, whatever else they are. -/
def silences : Suppressor → Node → Bool
  | marker targets, n =>
    ((n.marks.filter fun a => Marker.markNames.contains a.name).flatMap (·.args)).any
      targets.matchedBy
  | markedWith names, n => n.kind.isDeclaration && n.marks.any fun a => lists names a.name
  | insideFunction names, n => n.kind = .function && n.name?.any names.contains
  | attachedReason, _ | supplied _ _, _ => false

theorem silences_detached (s : Suppressor) (n : Node) : s.silences n.detached = s.silences n := by
  cases s <;> rfl

theorem claims_eq_any {s : Suppressor} (hreason : s ≠ attachedReason)
    (hsupplied : ∀ name test, s ≠ supplied name test) (f : Finding) (t : Tree) :
    s.claims f t = (t.surroundings (f.anchor t)).any s.silences := by
  rw [← Tree.any_ancestors]
  -- Each suppressor tests what it finds under a number; the test only needs the node there.
  cases s with
  | attachedReason => exact absurd rfl hreason
  | supplied name test => exact absurd rfl (hsupplied name test)
  | marker targets =>
    have htest : targets.matchedOn t = fun m => (t.node? m).any (marker targets).silences := by
      funext m
      unfold MarkerTargets.matchedOn Marker.argumentsOn
      cases t.node? m <;> rfl
    rw [claims, htest]
  | markedWith names =>
    have htest : marksNode names t = fun m => (t.node? m).any (markedWith names).silences := by
      funext m
      unfold marksNode
      cases t.node? m <;> rfl
    rw [claims, htest]
  | insideFunction names =>
    have htest : namesNode names t = fun m => (t.node? m).any (insideFunction names).silences := by
      funext m
      unfold namesNode
      cases t.node? m <;> rfl
    rw [claims, htest]

theorem claims_congr {s : Suppressor} (hsupplied : ∀ name test, s ≠ supplied name test)
    {f f' : Finding} {t t' : Tree} (hreasons : f.suppressReasons = f'.suppressReasons)
    (hdetached : (t.surroundings (f.anchor t)).map Node.detached =
      (t'.surroundings (f'.anchor t')).map Node.detached) : s.claims f t = s.claims f' t' := by
  by_cases hreason : s = attachedReason
  · rw [hreason, claims, claims, hreasons]
  · have hany : ∀ nodes : List Node,
        nodes.any s.silences = (nodes.map Node.detached).any s.silences := by
      intro nodes
      rw [List.any_map]
      exact congrArg nodes.any (funext fun n => (silences_detached s n).symm)
    rw [claims_eq_any hreason hsupplied, claims_eq_any hreason hsupplied, hany, hdetached, ← hany]

end Suppressor

/-! ### The resolver of a rule -/

namespace Resolver

variable {d : Descriptor} {config : Config} {r : Resolver}

/-- The suppressors that the configuration of a rule asks for. -/
def suppressorsOf (d : Descriptor) (marked functions : List String) : List Suppressor :=
  [.attachedReason, .marker (.ofRule d)] ++
    (if marked.isEmpty then [] else [.markedWith marked]) ++
    (if functions.isEmpty then [] else [.insideFunction functions])

theorem of_ofRule (h : ofRule d config = .ok r) :
    ∃ marked functions, config.valueD .texts "ignore_annotated" [] = .ok marked ∧
      config.valueD .texts "ignore_function" [] = .ok functions ∧
      r.suppressible = d.category.isSuppressible ∧
      r.suppressors = suppressorsOf d marked functions := by
  unfold ofRule at h
  obtain ⟨marked, hmarked, h⟩ := Success.of_bind h
  obtain ⟨functions, hfunctions, h⟩ := Success.of_bind h
  obtain rfl := Except.ok.inj h
  exact ⟨marked, functions, hmarked, hfunctions, rfl, rfl⟩

theorem ne_supplied_of_mem {marked functions : List String} {s : Suppressor}
    (h : s ∈ suppressorsOf d marked functions) (name : String) (test : Finding → Tree → Bool) :
    s ≠ .supplied name test := by
  rintro rfl
  simp [suppressorsOf] at h

/-- A node silences the rule when one of its suppressors says so; a list without names, whose
suppressor is left out, would say so of no node. -/
theorem exists_silences_iff {marked functions : List String} {n : Node} :
    (∃ s ∈ suppressorsOf d marked functions, s.silences n = true) ↔
      n.Silences d marked functions := by
  constructor
  · rintro ⟨s, hs, h⟩
    cases s with
    | attachedReason => cases h
    | supplied name test => cases h
    | marker targets =>
      obtain rfl : targets = .ofRule d := by simpa [suppressorsOf] using hs
      obtain ⟨argument, hargument, hmatched⟩ := List.any_eq_true.mp h
      obtain ⟨a, ha, hargument⟩ := List.mem_flatMap.mp hargument
      obtain ⟨ha, hname⟩ := List.mem_filter.mp ha
      exact .byMarker ha (List.contains_iff_mem.mp hname) hargument hmatched
    | markedWith names =>
      obtain ⟨-, rfl⟩ : marked ≠ [] ∧ names = marked := by simpa [suppressorsOf] using hs
      obtain ⟨hdeclaration, hmarks⟩ := Bool.and_eq_true_iff.mp h
      obtain ⟨a, ha, hlists⟩ := List.any_eq_true.mp hmarks
      obtain ⟨name, hname, heq⟩ := List.any_eq_true.mp hlists
      rw [Bool.or_eq_true, beq_iff_eq, beq_iff_eq] at heq
      refine .byMark hdeclaration ha ?_
      rcases heq with rfl | rfl
      · exact .inl hname
      · exact .inr hname
    | insideFunction names =>
      obtain ⟨-, rfl⟩ : functions ≠ [] ∧ names = functions := by simpa [suppressorsOf] using hs
      obtain ⟨hkind, hname⟩ := Bool.and_eq_true_iff.mp h
      obtain ⟨name, hname, hlisted⟩ := (Option.any_eq_true ..).mp hname
      exact .byName (of_decide_eq_true hkind) hname (List.contains_iff_mem.mp hlisted)
  · intro h
    cases h with
    | byMarker ha hname hargument hmatched =>
      refine ⟨.marker (.ofRule d), by simp [suppressorsOf], List.any_eq_true.mpr ⟨_, ?_, hmatched⟩⟩
      exact List.mem_flatMap.mpr
        ⟨_, List.mem_filter.mpr ⟨ha, List.contains_iff_mem.mpr hname⟩, hargument⟩
    | @byMark a hdeclaration ha hlisted =>
      -- A list with a name in it has its suppressor.
      have hne : marked ≠ [] := by
        rintro rfl
        simp at hlisted
      refine ⟨.markedWith marked, by simp [suppressorsOf, hne],
        Bool.and_eq_true_iff.mpr ⟨hdeclaration, List.any_eq_true.mpr ⟨a, ha, ?_⟩⟩⟩
      rcases hlisted with hlisted | hlisted
      · exact List.any_eq_true.mpr ⟨_, hlisted, by simp⟩
      · exact List.any_eq_true.mpr ⟨_, hlisted, by simp⟩
    | byName hkind hname hlisted =>
      have hne : functions ≠ [] := List.ne_nil_of_mem hlisted
      refine ⟨.insideFunction functions, by simp [suppressorsOf, hne],
        Bool.and_eq_true_iff.mpr ⟨decide_eq_true hkind, ?_⟩⟩
      rw [hname]
      exact List.contains_iff_mem.mpr hlisted

theorem exists_claims_iff {marked functions : List String} {f : Finding} {t : Tree} :
    (∃ s ∈ suppressorsOf d marked functions, s.claims f t = true) ↔
      f.suppressReasons ≠ [] ∨
        ∃ n ∈ t.surroundings (f.anchor t), n.Silences d marked functions := by
  constructor
  · rintro ⟨s, hs, h⟩
    by_cases hreason : s = .attachedReason
    · rw [hreason, Suppressor.claims] at h
      exact .inl (by simpa using h)
    · rw [Suppressor.claims_eq_any hreason (ne_supplied_of_mem hs)] at h
      obtain ⟨n, hn, hsilences⟩ := List.any_eq_true.mp h
      exact .inr ⟨n, hn, exists_silences_iff.mp ⟨s, hs, hsilences⟩⟩
  · rintro (hreasons | ⟨n, hn, hsilences⟩)
    · refine ⟨.attachedReason, by simp [suppressorsOf], ?_⟩
      rw [Suppressor.claims]
      simpa using hreasons
    · obtain ⟨s, hs, h⟩ := exists_silences_iff.mpr hsilences
      have hreason : s ≠ .attachedReason := by
        rintro rfl
        cases h
      refine ⟨s, hs, ?_⟩
      rw [Suppressor.claims_eq_any hreason (ne_supplied_of_mem hs)]
      exact List.any_eq_true.mpr ⟨n, hn, h⟩

theorem decide_eq_suppressed_iff (h : r.suppressible = true) (f : Finding) (t : Tree) :
    (∃ reason, r.decide f t = .suppressed reason) ↔ ∃ s ∈ r.suppressors, s.claims f t = true := by
  refine Iff.trans ?_ (List.find?_isSome (p := fun s : Suppressor => s.claims f t))
  unfold decide
  cases r.suppressors.find? fun s => s.claims f t with
  | none => simp
  | some s => simp [h]

theorem decide_congr (h : r.suppressible = true) {f f' : Finding} {t t' : Tree}
    (hclaims : ∀ s ∈ r.suppressors, s.claims f t = s.claims f' t') :
    r.decide f t = r.decide f' t' := by
  have hfind : (r.suppressors.find? fun s => s.claims f t) =
      r.suppressors.find? fun s => s.claims f' t' := List.find?_congr hclaims
  unfold decide
  rw [hfind]
  cases r.suppressors.find? fun s => s.claims f' t' with
  | none => rfl
  | some s => simp only [h, if_true]

end Resolver

/-- A finding of a rule that can be suppressed is dropped exactly when the rule attached a reason or
one of the nodes that the finding is within silences the rule. So the decision is the same in any
other tree in which these nodes look the same, and what is dropped without a reason of its own at
one node is dropped at every node inside it. -/
theorem suppression_follows_surroundings {d : Descriptor} {config : Config} {r : Resolver}
    (hr : Resolver.ofRule d config = .ok r) (hd : d.category.isSuppressible = true) :
    ∃ marked functions, config.valueD .texts "ignore_annotated" [] = .ok marked ∧
      config.valueD .texts "ignore_function" [] = .ok functions ∧
      (∀ t : Tree, t.Made → ∀ f : Finding,
        (∃ reason, r.decide f t = .suppressed reason) ↔
          f.suppressReasons ≠ [] ∨
            ∃ m n, t.Within m (f.anchor t) ∧ t.node? m = some n ∧
              n.Silences d marked functions) ∧
      (∀ (t t' : Tree) (f f' : Finding), f.suppressReasons = f'.suppressReasons →
        (t.surroundings (f.anchor t)).map Node.detached =
          (t'.surroundings (f'.anchor t')).map Node.detached →
        r.decide f t = r.decide f' t') ∧
      ∀ t : Tree, t.Made → ∀ f f' : Finding, f.suppressReasons = [] →
        (∃ reason, r.decide f t = .suppressed reason) → t.Within (f.anchor t) (f'.anchor t) →
        ∃ reason, r.decide f' t = .suppressed reason := by
  obtain ⟨marked, functions, hmarked, hfunctions, hsuppressible, hsuppressors⟩ :=
    Resolver.of_ofRule hr
  rw [hd] at hsuppressible
  have hiff : ∀ t : Tree, t.Made → ∀ f : Finding,
      (∃ reason, r.decide f t = .suppressed reason) ↔
        f.suppressReasons ≠ [] ∨
          ∃ m n, t.Within m (f.anchor t) ∧ t.node? m = some n ∧
            n.Silences d marked functions := by
    intro t ht f
    have hanchor := f.anchor_lt_size ht.rooted.size_pos
    rw [Resolver.decide_eq_suppressed_iff hsuppressible, hsuppressors, Resolver.exists_claims_iff]
    simp only [ht.mem_surroundings hanchor]
    refine or_congr_right ⟨?_, ?_⟩
    · rintro ⟨n, ⟨m, hm, hn⟩, hsilences⟩
      exact ⟨m, n, hm, hn, hsilences⟩
    · rintro ⟨m, n, hm, hn, hsilences⟩
      exact ⟨n, ⟨m, hm, hn⟩, hsilences⟩
  refine ⟨marked, functions, hmarked, hfunctions, hiff, ?_, ?_⟩
  · intro t t' f f' hreasons hdetached
    refine Resolver.decide_congr hsuppressible fun s hs => ?_
    rw [hsuppressors] at hs
    exact Suppressor.claims_congr (Resolver.ne_supplied_of_mem hs) hreasons hdetached
  · intro t ht f f' hreasons hf hwithin
    -- What silenced the first finding is around the second one as well.
    obtain ⟨m, n, hm, hn, hsilences⟩ := ((hiff t ht f).mp hf).resolve_left (not_not.mpr hreasons)
    exact (hiff t ht f').mpr (.inr ⟨m, n, hm.trans hwithin, hn, hsilences⟩)

/-! ### A class that was generated -/

namespace GeneratedClass

/-- A class with a mark, a method with a body in it, and a function beside it with other marks. -/
def outline (beside : List Mark) : Outline :=
  .node .file none [] {} [
    .node .classType (some "A") [{ name := "org.example.Generated" }] {} [
      .node .function (some "run") [] {} [.node .block none [] {} []]],
    .node .function (some "main") beside {} []]

def tree (beside : List Mark) : Tree := .ofOutline ⟨"A.kt"⟩ (outline beside)

def descriptor : Descriptor :=
  { ruleSetId := "complexity", ruleId := "LongMethod", baseId := "LongMethod" }

def config : Config :=
  { root := .mapping [(.string "ignore_annotated", .list [.string "Generated"])] }

def resolver : Resolver where
  rule := descriptor.qualifiedId
  suppressible := true
  targets := .ofRule descriptor
  suppressors := [.attachedReason, .marker (.ofRule descriptor), .markedWith ["Generated"]]

def finding (beside : List Mark) (id : NodeId) : Finding where
  ruleId := "LongMethod"
  ruleSetId := "complexity"
  severity := .warning
  message := "long"
  entity := Entity.ofNode (tree beside) id

def marker : Mark := { name := "Suppress", args := ["LongMethod"] }

end GeneratedClass

open GeneratedClass in
/-- The mark on the class silences the rule in the body of its method; a marker on the function
beside it makes no difference there. -/
theorem suppression_follows_generated_class :
    Resolver.ofRule descriptor config = .ok resolver ∧
    descriptor.category.isSuppressible = true ∧
    (tree []).Made ∧
    (∃ reason, resolver.decide (finding [] 1) (tree []) = .suppressed reason) ∧
    (tree []).Within 1 3 ∧
    (∃ reason, resolver.decide (finding [] 3) (tree []) = .suppressed reason) ∧
    resolver.decide (finding [marker] 3) (tree [marker]) =
      resolver.decide (finding [] 3) (tree []) := by
  have hofRule : Resolver.ofRule descriptor config = .ok resolver := rfl
  have hmade : (tree []).Made := .nested ⟨"A.kt"⟩ (outline [])
  have hwithin : (tree []).Within 1 3 := .inside (p := 2) rfl (.inside (p := 1) rfl .here)
  obtain ⟨marked, functions, hmarked, -, hiff, hframe, hinside⟩ :=
    suppression_follows_surroundings hofRule rfl
  obtain rfl : ["Generated"] = marked := Except.ok.inj hmarked
  have hclass : ∃ reason, resolver.decide (finding [] 1) (tree []) = .suppressed reason := by
    refine (hiff _ hmade _).mpr (.inr ⟨1, _, .here, rfl, ?_⟩)
    exact .byMark rfl List.mem_cons_self (.inr (by decide))
  exact ⟨hofRule, rfl, hmade, hclass, hwithin, hinside _ hmade _ (finding [] 3) rfl hclass hwithin,
    hframe _ _ _ _ rfl rfl⟩

end CodeAudit
