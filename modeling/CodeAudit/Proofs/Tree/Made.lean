import CodeAudit.Proofs.Tree.Walk
import CodeAudit.Tree.Reading

namespace CodeAudit.Tree

variable {t t' : Tree}

/-- Trees of nested descriptions, and trees that are built up from a file node. -/
inductive Made : Tree → Prop
  | nested (path : Path) (o : Outline) : Made (ofOutline path o)
  | started (path : Path) (span : Span) : Made (start path span)
  | added {t t' : Tree} {parent : NodeId} {kind : NodeKind} {name : Option String} {span : Span}
      (h : Made t) (hparent : parent < t.size)
      (hadd : t.add? parent { kind, givenName := name, span } = some t') : Made t'
  | marked {t t' : Tree} {id : NodeId} {a : Mark} (h : Made t) (hmark : t.mark? id a = some t') :
      Made t'

theorem made_of_ofJson {text : String} {origin : Path} (h : ofJson text origin = .ok t) :
    t.Made := by
  unfold ofJson at h
  split at h
  · cases h
  · rename_i path root _
    split at h
    · obtain rfl := Except.ok.inj h
      exact .nested _ root
    · cases h

theorem of_add? {parent : NodeId} {n : Node} (h : t.add? parent n = some t') :
    parent ≤ t.size ∧ t' = t.attach parent n := by
  unfold add? at h
  split at h
  · exact ⟨‹_›, (Option.some.inj h).symm⟩
  · cases h

/-! ### Marking -/

section Mark

variable {id : NodeId} {a : Mark} (h : t.mark? id a = some t')

include h

/-- A mark changes nothing but the marks of its node. -/
theorem node?_of_mark? (i : NodeId) :
    t'.node? i =
      (t.node? i).map fun n => if id = i then { n with marks := n.marks ++ [a] } else n := by
  unfold mark? at h
  split at h
  · obtain rfl := Option.some.inj h
    simp only [modify, node?, Array.getElem?_modify]
    split
    next => rfl
    next => cases t.nodes[i]? <;> rfl
  · cases h

theorem size_of_mark? : t'.size = t.size := by
  unfold mark? at h
  split at h
  · obtain rfl := Option.some.inj h
    exact Array.size_modify
  · cases h

theorem parent?_of_mark? (i : NodeId) : t'.parent? i = t.parent? i := by
  rw [parent?, parent?, node?_of_mark? h]
  cases t.node? i with
  | none => rfl
  | some n => by_cases hi : id = i <;> simp [hi]

theorem childrenOf_of_mark? (i : NodeId) : t'.childrenOf i = t.childrenOf i := by
  rw [childrenOf, childrenOf, node?_of_mark? h]
  cases t.node? i with
  | none => rfl
  | some n => by_cases hi : id = i <;> simp [hi]

theorem Loose.of_mark? (ht : t.Loose) : t'.Loose where
  parent_le hp := ht.parent_le (parent?_of_mark? h _ ▸ hp)
  mem_childrenOf := by
    intro p c
    rw [childrenOf_of_mark? h, parent?_of_mark? h]
    exact ht.mem_childrenOf
  ascending p := by
    rw [childrenOf_of_mark? h]
    exact ht.ascending p

end Mark

/-! ### Links and roots -/

theorem Made.linked (h : t.Made) : t.Linked := by
  induction h with
  | nested path o => exact linked_ofOutline path o
  | started path span => exact linked_singleton path rfl rfl
  | added _ hparent hadd ih =>
    rw [(of_add? hadd).2]
    exact ih.attach hparent rfl
  | marked _ hmark ih =>
    exact {
      parent_lt := fun hp => ih.parent_lt (parent?_of_mark? hmark _ ▸ hp)
      mem_childrenOf := (ih.loose.of_mark? hmark).mem_childrenOf
      ascending := (ih.loose.of_mark? hmark).ascending }

/-- There is a first node, and each other node names its parent. -/
structure Rooted (t : Tree) : Prop where
  size_pos : 0 < t.size
  isSome_parent? : ∀ {id : Nat}, 0 < id → id < t.size → (t.parent? id).isSome

theorem Rooted.attach (h : t.Rooted) (parent : NodeId) (n : Node) :
    (t.attach parent n).Rooted where
  size_pos := by
    rw [size_attach]
    exact Nat.succ_pos _
  isSome_parent? := by
    intro id hpos hid
    rw [size_attach] at hid
    rw [parent?_attach]
    split
    next => rfl
    next hne => exact h.isSome_parent? hpos (Nat.lt_of_le_of_ne (Nat.le_of_lt_succ hid) hne)

theorem Rooted.of_mark? (h : t.Rooted) {id : NodeId} {a : Mark} (hmark : t.mark? id a = some t') :
    t'.Rooted where
  size_pos := size_of_mark? hmark ▸ h.size_pos
  isSome_parent? := by
    intro i hpos hi
    rw [parent?_of_mark? hmark]
    exact h.isSome_parent? hpos (size_of_mark? hmark ▸ hi)

theorem keptByAttach_rooted : KeptByAttach Rooted := fun {_ parent n} h _ _ => h.attach parent n

theorem rooted_singleton (path : Path) (n : Node) : Rooted { path, nodes := #[n] } where
  size_pos := Nat.zero_lt_one
  isSome_parent? hpos hid := absurd hid (Nat.not_lt.mpr hpos)

theorem Made.rooted (h : t.Made) : t.Rooted := by
  induction h with
  | nested path o =>
    obtain ⟨kind, name, marks, span, children⟩ := o
    exact (keptByAttach_rooted.graftAll (rooted_singleton path _) Nat.zero_lt_one children).1
  | started path span => exact rooted_singleton path _
  | added _ _ hadd ih =>
    rw [(of_add? hadd).2]
    exact ih.attach _ _
  | marked _ hmark ih => exact ih.of_mark? hmark

theorem Made.rootId_mem_ancestors (h : t.Made) {id : Nat} (hid : id < t.size) :
    rootId ∈ t.ancestors id := by
  induction id using Nat.strongRecOn with
  | ind id ih =>
    rw [ancestors_eq h.linked hid]
    rcases Nat.eq_zero_or_pos id with rfl | hpos
    · exact List.mem_cons_self
    · obtain ⟨p, hp⟩ := Option.isSome_iff_exists.mp (h.rooted.isSome_parent? hpos hid)
      have hlt := h.linked.parent_lt hp
      rw [hp, Option.map_some, Option.getD_some]
      exact List.mem_cons_of_mem id (ih p hlt (Nat.lt_trans hlt hid))

theorem Made.mem_walk (h : t.Made) {id : Nat} (hid : id < t.size) : id ∈ t.walk :=
  (mem_walkFrom_iff h.linked h.rooted.size_pos).mpr
    (within_of_mem_ancestors (h.rootId_mem_ancestors hid))

end CodeAudit.Tree
