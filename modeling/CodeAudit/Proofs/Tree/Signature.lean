import CodeAudit.Finding.Basic
import CodeAudit.Proofs.Tree.Correspondence

namespace CodeAudit.Tree

/-- Whether a node is a declaration with a name. -/
def isNamedDeclaration (t : Tree) (id : NodeId) : Bool :=
  ((t.node? id).map fun n => n.kind.isDeclaration && n.name?.isSome).getD false

/-- The declarations around a node without the node itself, outermost first. -/
def declarationsAbove (t : Tree) (id : NodeId) : List NodeId :=
  ((t.parent? id).map t.declarationsAround).getD []

/-- The segments a signature has from one of its declarations on. -/
def segmentsFrom (t : Tree) (top id : NodeId) : List String :=
  ((t.declarationsAround id).dropWhile (· != top)).map t.segment

/-- Two trees, and in each a named declaration, with subtrees that are the same but for spans and
marks. -/
structure Twins (t₁ t₂ : Tree) (d₁ d₂ : NodeId) : Prop where
  linked₁ : t₁.Linked
  linked₂ : t₂.Linked
  named₁ : t₁.isNamedDeclaration d₁ = true
  named₂ : t₂.isNamedDeclaration d₂ = true
  alike : Alike t₁ t₂ d₁ d₂

variable {t t₁ t₂ : Tree} {d d₁ d₂ n n₁ n₂ m₁ m₂ o₁ o₂ : NodeId}

/-! ### Named declarations -/

theorem exists_node_of_named (h : t.isNamedDeclaration d = true) :
    ∃ a, t.node? d = some a ∧ a.kind.isDeclaration = true ∧ a.name?.isSome = true := by
  unfold isNamedDeclaration at h
  cases ha : t.node? d with
  | none => simp [ha] at h
  | some a => exact ⟨a, rfl, by simpa [ha] using h⟩

theorem kindIs_of_named (h : t.isNamedDeclaration d = true) :
    t.kindIs NodeKind.isDeclaration d = true := by
  obtain ⟨a, ha, hkind, -⟩ := exists_node_of_named h
  simp [kindIs, ha, hkind]

theorem lt_size_of_named (h : t.isNamedDeclaration d = true) : d < t.size := by
  obtain ⟨a, ha, -⟩ := exists_node_of_named h
  exact (Array.getElem?_eq_some_iff.mp ha).1

theorem not_isAnonymous_of_named (h : t.isNamedDeclaration d = true) :
    t.isAnonymous d = false := by
  obtain ⟨a, ha, -, hname⟩ := exists_node_of_named h
  obtain ⟨name, hname⟩ := Option.isSome_iff_exists.mp hname
  simp [isAnonymous, ha, Node.isAnonymousDeclaration, hname]

/-! ### What subtrees that are alike have in common -/

theorem map_eq_of_forall₂ {α β γ : Type} {R : α → β → Prop} {as : List α} {bs : List β}
    {f : α → γ} {g : β → γ} (h : List.Forall₂ R as bs) (hfg : ∀ a b, R a b → f a = g b) :
    as.map f = bs.map g := by
  induction h with
  | nil => rfl
  | cons hab _ ih => rw [List.map_cons, List.map_cons, hfg _ _ hab, ih]

theorem Alike.isNamedDeclaration_eq (h : Alike t₁ t₂ n₁ n₂) :
    t₁.isNamedDeclaration n₁ = t₂.isNamedDeclaration n₂ := by
  unfold isNamedDeclaration
  rw [h.map_eq fun n => n.kind.isDeclaration && n.name?.isSome]
  intro a b hface
  rw [Node.kind_eq_of_face hface, Node.name?_eq_of_face hface]

theorem parameterNames_eq_filterMap (t : Tree) (a : Node) :
    t.parameterNames a = (a.children.map fun c => (t.node? c).map fun p =>
      if p.kind = .parameter then some (p.name?.getD "_") else none).filterMap Option.join := by
  rw [parameterNames, List.filterMap_map]
  refine List.filterMap_congr fun c _ => ?_
  rw [Function.comp_apply]
  cases t.node? c <;> rfl

theorem Alike.parameterNames_eq (h : Alike t₁ t₂ n₁ n₂) {a b : Node} (ha : t₁.node? n₁ = some a)
    (hb : t₂.node? n₂ = some b) : t₁.parameterNames a = t₂.parameterNames b := by
  obtain ⟨-, hchildren⟩ := h
  have hc₁ : t₁.childrenOf n₁ = a.children := by rw [childrenOf, ha]; rfl
  have hc₂ : t₂.childrenOf n₂ = b.children := by rw [childrenOf, hb]; rfl
  rw [parameterNames_eq_filterMap, parameterNames_eq_filterMap, ← hc₁, ← hc₂]
  refine congrArg (List.filterMap Option.join) (map_eq_of_forall₂ hchildren fun c₁ c₂ hc => ?_)
  refine hc.map_eq _ fun p q hface => ?_
  rw [Node.kind_eq_of_face hface, Node.name?_eq_of_face hface]

/-! ### Declarations from one on -/

theorem declarationsAbove_eq_nil (h : t.owner d = none) : t.declarationsAbove d = [] := by
  unfold declarationsAbove
  cases hp : t.parent? d with
  | none => rfl
  | some p =>
    rw [owner_of_parent hp, Tree.enclosingDeclaration, List.find?_eq_none] at h
    rw [Option.map_some, Option.getD_some, Tree.declarationsAround, List.reverse_eq_nil_iff,
      List.filter_eq_nil_iff]
    exact h

theorem ne_of_mem_declarationsAbove (h : t.Linked) {m : NodeId} (hm : m ∈ t.declarationsAbove d) :
    m ≠ d := by
  unfold declarationsAbove at hm
  cases hp : t.parent? d with
  | none => simp [hp] at hm
  | some p =>
    have hlt := h.parent_lt hp
    rw [hp, Option.map_some, Option.getD_some, Tree.declarationsAround, List.mem_reverse] at hm
    have hmem : m ∈ t.ancestors p := List.mem_of_mem_filter hm
    have hle := (within_of_mem_ancestors hmem).le h.loose
    exact Nat.ne_of_lt (Nat.lt_of_le_of_lt hle hlt)

section Split

variable {inner : List NodeId} (hn : t.declarationsAround n = t.declarationsAbove d ++ d :: inner)

include hn

theorem segmentsFrom_of_split (h : t.Linked) :
    t.segmentsFrom d n = (d :: inner).map t.segment := by
  have habove : ∀ m ∈ t.declarationsAbove d, (m != d) = true := fun m hm =>
    bne_iff_ne.mpr (ne_of_mem_declarationsAbove h hm)
  rw [segmentsFrom, hn, List.dropWhile_append_of_pos habove]
  simp

theorem signature_of_split (h : t.Linked) :
    t.signature n =
      ".".intercalate ((t.declarationsAbove d).map t.segment ++ t.segmentsFrom d n) := by
  rw [segmentsFrom_of_split hn h, ← List.map_append, ← hn]
  unfold signature
  split
  next hnil => simp [hnil] at hn
  next => rfl

end Split

/-! ### Declarations around corresponding nodes -/

namespace Twins

variable (h : Twins t₁ t₂ d₁ d₂)

include h

theorem lt_size (hn : Corresponding t₁ t₂ d₁ d₂ n₁ n₂) : n₁ < t₁.size ∧ n₂ < t₂.size :=
  ⟨(hn.within h.linked₁).lt_size (lt_size_of_named h.named₁),
    (hn.symm.within h.linked₂).lt_size (lt_size_of_named h.named₂)⟩

theorem kindIs_eq (hn : Corresponding t₁ t₂ d₁ d₂ n₁ n₂) (p : NodeKind → Bool) :
    t₁.kindIs p n₁ = t₂.kindIs p n₂ :=
  (hn.alike h.alike).kindIs_eq p

/-- The climb to the nearest declaration does not leave the subtree. -/
theorem enclosingDeclaration (hn : Corresponding t₁ t₂ d₁ d₂ n₁ n₂) :
    ∃ e₁ e₂, t₁.enclosingDeclaration n₁ = some e₁ ∧ t₂.enclosingDeclaration n₂ = some e₂ ∧
      Corresponding t₁ t₂ d₁ d₂ e₁ e₂ := by
  induction hn with
  | top =>
    obtain ⟨hlt₁, hlt₂⟩ := h.lt_size .top
    refine ⟨d₁, d₂, ?_, ?_, .top⟩
    · rw [enclosingDeclaration_eq h.linked₁ hlt₁, if_pos (kindIs_of_named h.named₁)]
    · rw [enclosingDeclaration_eq h.linked₂ hlt₂, if_pos (kindIs_of_named h.named₂)]
  | child hp i left right ih =>
    have hn := hp.child i left right
    obtain ⟨hlt₁, hlt₂⟩ := h.lt_size hn
    rw [enclosingDeclaration_eq h.linked₁ hlt₁, enclosingDeclaration_eq h.linked₂ hlt₂,
      ← h.kindIs_eq hn, owner_of_parent (h.linked₁.parent?_of_getElem? left),
      owner_of_parent (h.linked₂.parent?_of_getElem? right)]
    split
    · exact ⟨_, _, rfl, rfl, hn⟩
    · exact ih

theorem owner (hn : Corresponding t₁ t₂ d₁ d₂ n₁ n₂) (hne : n₁ ≠ d₁) :
    ∃ o₁ o₂, t₁.owner n₁ = some o₁ ∧ t₂.owner n₂ = some o₂ ∧
      Corresponding t₁ t₂ d₁ d₂ o₁ o₂ := by
  cases hn with
  | top => exact absurd rfl hne
  | child hp i left right =>
    rw [owner_of_parent (h.linked₁.parent?_of_getElem? left),
      owner_of_parent (h.linked₂.parent?_of_getElem? right)]
    exact h.enclosingDeclaration hp

theorem declarationsAround (hn : Corresponding t₁ t₂ d₁ d₂ n₁ n₂) :
    ∃ inner₁ inner₂, t₁.declarationsAround n₁ = t₁.declarationsAbove d₁ ++ d₁ :: inner₁ ∧
      t₂.declarationsAround n₂ = t₂.declarationsAbove d₂ ++ d₂ :: inner₂ ∧
      List.Forall₂ (Corresponding t₁ t₂ d₁ d₂) inner₁ inner₂ := by
  -- By the way down from the top: each further child adds a declaration on both sides or on none.
  induction hn with
  | top =>
    obtain ⟨hlt₁, hlt₂⟩ := h.lt_size .top
    refine ⟨[], [], ?_, ?_, .nil⟩
    · rw [declarationsAround_eq h.linked₁ hlt₁, if_pos (kindIs_of_named h.named₁)]
      rfl
    · rw [declarationsAround_eq h.linked₂ hlt₂, if_pos (kindIs_of_named h.named₂)]
      rfl
  | @child p₁ p₂ n₁ n₂ hp i left right ih =>
    have hn := hp.child i left right
    obtain ⟨hlt₁, hlt₂⟩ := h.lt_size hn
    obtain ⟨inner₁, inner₂, hinner₁, hinner₂, hinner⟩ := ih
    rw [declarationsAround_eq h.linked₁ hlt₁, declarationsAround_eq h.linked₂ hlt₂,
      ← h.kindIs_eq hn, h.linked₁.parent?_of_getElem? left, h.linked₂.parent?_of_getElem? right,
      Option.map_some, Option.map_some, Option.getD_some, Option.getD_some, hinner₁, hinner₂]
    split
    · exact ⟨inner₁ ++ [n₁], inner₂ ++ [n₂], by simp, by simp,
        List.rel_append hinner (.cons hn .nil)⟩
    · exact ⟨inner₁, inner₂, by simp, by simp, hinner⟩

/-! ### Segments of corresponding nodes -/

/-- The unnamed declarations of two owners in the subtrees correspond one by one: the walks are in
step, and whatever is counted on the way has its owner inside. -/
theorem anonymousOf (ho : Corresponding t₁ t₂ d₁ d₂ o₁ o₂) :
    List.Forall₂ (Corresponding t₁ t₂ d₁ d₂) (t₁.anonymousOf (some o₁))
      (t₂.anonymousOf (some o₂)) := by
  obtain ⟨hlt₁, hlt₂⟩ := h.lt_size ho
  refine List.rel_filter (fun m₁ m₂ hm => ?_) (ho.walkFrom h.linked₁ h.linked₂ h.alike hlt₁ hlt₂)
  have hstart := hm.eq_iff_eq h.linked₁ h.linked₂ ho
  have hanonymous := (hm.alike h.alike).isAnonymous_eq
  by_cases htop : m₁ = d₁
  · -- The declaration at the top has an owner outside, but also a name.
    obtain rfl : m₂ = d₂ := (hm.eq_iff_eq h.linked₁ h.linked₂ .top).mp htop
    simp [htop, not_isAnonymous_of_named h.named₁, not_isAnonymous_of_named h.named₂]
  · obtain ⟨p₁, p₂, hp₁, hp₂, hp⟩ := h.owner hm htop
    have howner := hp.eq_iff_eq h.linked₁ h.linked₂ ho
    simp [hp₁, hp₂, hstart, howner, hanonymous]

theorem anonymousOrdinal_eq (hn : Corresponding t₁ t₂ d₁ d₂ n₁ n₂) (hne : n₁ ≠ d₁) :
    t₁.anonymousOrdinal n₁ = t₂.anonymousOrdinal n₂ := by
  obtain ⟨o₁, o₂, ho₁, ho₂, ho⟩ := h.owner hn hne
  have hfind : (t₁.anonymousOf (some o₁)).map (· == n₁) =
      (t₂.anonymousOf (some o₂)).map (· == n₂) := by
    refine map_eq_of_forall₂ (h.anonymousOf ho) fun m₁ m₂ hm => ?_
    rw [Bool.eq_iff_iff, beq_iff_eq, beq_iff_eq]
    exact hm.eq_iff_eq h.linked₁ h.linked₂ hn
  have hpos := congrArg (List.findIdx? id) hfind
  rw [List.findIdx?_map, List.findIdx?_map] at hpos
  rw [anonymousOrdinal, anonymousOrdinal, ho₁, ho₂]
  exact congrArg (·.getD 0) hpos

/-- Each declaration in the subtree contributes to a signature what its counterpart contributes. -/
theorem segment_eq (hn : Corresponding t₁ t₂ d₁ d₂ n₁ n₂) : t₁.segment n₁ = t₂.segment n₂ := by
  have halike := hn.alike h.alike
  obtain ⟨a, ha⟩ : ∃ a, t₁.node? n₁ = some a := ⟨_, Array.getElem?_eq_getElem (h.lt_size hn).1⟩
  obtain ⟨b, hb, hface⟩ := halike.exists_node ha
  unfold segment
  simp only [ha, hb, Node.name?_eq_of_face hface, Node.kind_eq_of_face hface,
    halike.parameterNames_eq ha hb]
  cases hname : b.name? with
  | some name => rfl
  | none =>
    have hne : n₁ ≠ d₁ := by
      rintro rfl
      obtain ⟨a', ha', -, hsome⟩ := exists_node_of_named h.named₁
      obtain rfl := Option.some.inj (ha.symm.trans ha')
      rw [Node.name?_eq_of_face hface, hname] at hsome
      cases hsome
    simp only [h.anonymousOrdinal_eq hn hne]

theorem segmentsFrom_eq (hn : Corresponding t₁ t₂ d₁ d₂ n₁ n₂) :
    t₁.segmentsFrom d₁ n₁ = t₂.segmentsFrom d₂ n₂ := by
  obtain ⟨inner₁, inner₂, hinner₁, hinner₂, hinner⟩ := h.declarationsAround hn
  rw [segmentsFrom_of_split hinner₁ h.linked₁, segmentsFrom_of_split hinner₂ h.linked₂,
    List.map_cons, List.map_cons, h.segment_eq .top,
    map_eq_of_forall₂ hinner fun _ _ hm => h.segment_eq hm]

theorem signature_split (hn : Corresponding t₁ t₂ d₁ d₂ n₁ n₂) :
    t₁.signature n₁ = ".".intercalate
      ((t₁.declarationsAbove d₁).map t₁.segment ++ t₁.segmentsFrom d₁ n₁) ∧
    t₂.signature n₂ = ".".intercalate
      ((t₂.declarationsAbove d₂).map t₂.segment ++ t₂.segmentsFrom d₂ n₂) := by
  obtain ⟨inner₁, inner₂, hinner₁, hinner₂, -⟩ := h.declarationsAround hn
  exact ⟨signature_of_split hinner₁ h.linked₁, signature_of_split hinner₂ h.linked₂⟩

end Twins

/-- Signatures do not depend on code elsewhere. From a named declaration on, the segments of two
signatures are the same when the declaration's subtree is, and what comes before them in the
signatures are the segments of the declarations above it. -/
theorem common_subtree_signatures {path₁ path₂ : Path} {outline₁ outline₂ : Outline}
    (ht₁ : t₁ = ofOutline path₁ outline₁) (ht₂ : t₂ = ofOutline path₂ outline₂)
    (hd : t₁.isNamedDeclaration d₁ = true) (halike : Alike t₁ t₂ d₁ d₂)
    (hn : Corresponding t₁ t₂ d₁ d₂ n₁ n₂) :
    t₁.segmentsFrom d₁ n₁ = t₂.segmentsFrom d₂ n₂ ∧
    (t₁.signature n₁ = ".".intercalate
        ((t₁.declarationsAbove d₁).map t₁.segment ++ t₁.segmentsFrom d₁ n₁) ∧
      t₂.signature n₂ = ".".intercalate
        ((t₂.declarationsAbove d₂).map t₂.segment ++ t₂.segmentsFrom d₂ n₂)) ∧
    (t₁.owner d₁ = none → t₂.owner d₂ = none →
      t₁.signature n₁ = t₂.signature n₂ ∧
      ∀ f₁ f₂ : Finding, f₁.ruleId = f₂.ruleId → f₁.entity = Entity.ofNode t₁ n₁ →
        f₂.entity = Entity.ofNode t₂ n₂ → t₁.fileName = t₂.fileName →
        f₁.baselineId = f₂.baselineId) := by
  have h : Twins t₁ t₂ d₁ d₂ :=
    { linked₁ := ht₁ ▸ linked_ofOutline path₁ outline₁
      linked₂ := ht₂ ▸ linked_ofOutline path₂ outline₂
      named₁ := hd
      named₂ := halike.isNamedDeclaration_eq ▸ hd
      alike := halike }
  have hsegments := h.segmentsFrom_eq hn
  -- What comes before the subtree is all that the signatures can differ in.
  have hsplit := h.signature_split hn
  refine ⟨hsegments, hsplit, fun ho₁ ho₂ => ?_⟩
  have hsignature : t₁.signature n₁ = t₂.signature n₂ := by
    rw [hsplit.1, hsplit.2, declarationsAbove_eq_nil ho₁, declarationsAbove_eq_nil ho₂, hsegments]
    rfl
  refine ⟨hsignature, fun f₁ f₂ hrule he₁ he₂ hfile => ?_⟩
  have hlocation : f₁.location.fileName = f₂.location.fileName := by
    rw [Finding.location, Finding.location, he₁, he₂]
    exact hfile
  have hentity : f₁.entity.signature = f₂.entity.signature := by
    rw [he₁, he₂]
    exact hsignature
  rw [Finding.baselineId, Finding.baselineId, hrule, hlocation, hentity]

/-- A class with two lambdas in it, alone in its file. -/
def aloneInFile : Tree := ofOutline ⟨"a/Foo.kt"⟩ <|
  .node .file none [] {}
    [.node .classType (some "Foo") [] {} [.node .lambda none [] {} [], .node .lambda none [] {} []]]

/-- The class again, marked and further down, after a lambda and a function at the top of the file
and inside an expression. -/
def afterOthers : Tree := ofOutline ⟨"b/Foo.kt"⟩ <|
  .node .file none [] {}
    [.node .lambda none [] (.lines 1 2) [],
      .node .function (some "f") [] (.lines 3 9) [.node .lambda none [] (.lines 4 5) []],
      .node .expression none [] {}
        [.node .classType (some "Foo") [{ name := "Suppress" }] (.lines 12 20)
          [.node .lambda none [] (.lines 14 15) [], .node .lambda none [] (.lines 16 17) []]]]

theorem common_subtree_signatures_after_others :
    Alike aloneInFile afterOthers 1 5 ∧ Corresponding aloneInFile afterOthers 1 5 3 7 ∧
      aloneInFile.signature 3 = "Foo.<anonymous#1>" ∧
      afterOthers.signature 7 = "Foo.<anonymous#1>" := by
  have halike : Alike aloneInFile afterOthers 1 5 :=
    .intro rfl (.cons (.intro rfl .nil) (.cons (.intro rfl .nil) .nil))
  have hlambda : Corresponding aloneInFile afterOthers 1 5 3 7 := .child .top 1 rfl rfl
  obtain ⟨-, -, htop⟩ := common_subtree_signatures rfl rfl rfl halike hlambda
  have halone : aloneInFile.signature 3 = "Foo.<anonymous#1>" := by decide +kernel
  exact ⟨halike, hlambda, halone, (htop (by decide) (by decide)).1 ▸ halone⟩

end CodeAudit.Tree
