import CodeAudit.Proofs.Success
import CodeAudit.Proofs.Tree.Walk

/-!
How an outline is laid out in a flat tree. Its nodes stand in a row, each followed by the nodes
inside it, so what stands inside an outline is a stretch of the row that starts right behind it.
Grafting an outline appends such a stretch and enters its first number with the parent. From the
row follow the places of all nodes, the order of a walk, and that the outline can be read back.
-/

namespace CodeAudit

def Node.bare (n : Node) : Node := { n with parent := none, children := [] }

namespace Outline

mutual

/-- The outline and those inside it, each before the ones inside of it. -/
def preorder : Outline → List Outline
  | node kind name marks span children =>
    node kind name marks span children :: preorderAll children

def preorderAll : List Outline → List Outline
  | [] => []
  | o :: rest => o.preorder ++ preorderAll rest

end

/-- How many nodes there are in the outline. -/
def count (o : Outline) : Nat := o.preorder.length

/-- The first numbers of outlines that stand one after the other from `i` on. -/
def starts (i : NodeId) : List Outline → List NodeId
  | [] => []
  | o :: rest => i :: starts (i + o.count) rest

mutual

/-- The nodes of an outline that is numbered from `i` on. -/
def rows (parent : Option NodeId) (i : NodeId) : Outline → List Node
  | node kind name marks span children =>
    { kind, givenName := name, marks, span, parent, children := starts (i + 1) children } ::
      rowsAll i (i + 1) children

def rowsAll (parent i : NodeId) : List Outline → List Node
  | [] => []
  | o :: rest => rows (some parent) i o ++ rowsAll parent (i + o.count) rest

end

mutual

theorem map_bare_rows (parent : Option NodeId) (i : NodeId) (o : Outline) :
    (o.rows parent i).map Node.bare = o.preorder.map content := by
  match o with
  | node kind name marks span children =>
    rw [rows, preorder, List.map_cons, List.map_cons, map_bare_rowsAll i (i + 1) children]
    rfl

theorem map_bare_rowsAll (parent i : NodeId) (os : List Outline) :
    (rowsAll parent i os).map Node.bare = (preorderAll os).map content := by
  match os with
  | [] => rfl
  | o :: rest =>
    rw [rowsAll, preorderAll, List.map_append, List.map_append, map_bare_rows,
      map_bare_rowsAll parent (i + o.count) rest]

end

theorem length_rows (parent : Option NodeId) (i : NodeId) (o : Outline) :
    (o.rows parent i).length = o.count := by
  have h := congrArg List.length (map_bare_rows parent i o)
  simpa [count] using h

theorem preorderAll_append (os ps : List Outline) :
    preorderAll (os ++ ps) = preorderAll os ++ preorderAll ps := by
  induction os with
  | nil => rfl
  | cons o rest ih => simp [preorderAll, ih]

theorem count_le_of_mem {o : Outline} {os : List Outline} (h : o ∈ os) :
    o.count ≤ (preorderAll os).length := by
  obtain ⟨front, back, rfl⟩ := List.append_of_mem h
  simp only [preorderAll_append, preorderAll, List.length_append, count]
  omega

theorem count_node (kind : NodeKind) (name : Option String) (marks : List Mark) (span : Span)
    (children : List Outline) :
    (node kind name marks span children).count = (preorderAll children).length + 1 := by
  rw [count, preorder, List.length_cons]

end Outline

namespace Tree

open Outline

variable {t : Tree}

/-! ### Grafting appends a stretch of nodes -/

def extend (t : Tree) (ns : List Node) : Tree := { t with nodes := t.nodes ++ ns.toArray }

/-- Enters nodes as the last children of a node. -/
def adopt (t : Tree) (parent : NodeId) (ids : List NodeId) : Tree :=
  t.modify parent fun p => { p with children := p.children ++ ids }

theorem size_extend (t : Tree) (ns : List Node) : (t.extend ns).size = t.size + ns.length := by
  simp [extend, size]

theorem size_adopt (t : Tree) (parent : NodeId) (ids : List NodeId) :
    (t.adopt parent ids).size = t.size := by
  simp [adopt, modify, size]

theorem extend_nil (t : Tree) : t.extend [] = t := by
  simp [extend]

theorem extend_extend (t : Tree) (ns ms : List Node) :
    (t.extend ns).extend ms = t.extend (ns ++ ms) := by
  simp [extend]

theorem adopt_nil (t : Tree) (parent : NodeId) : t.adopt parent [] = t := by
  have hid : (fun p : Node => { p with children := p.children ++ [] }) = id := by
    funext p
    simp
  rw [adopt, hid, modify]
  congr 1
  apply Array.ext_getElem?
  intro i
  simp [Array.getElem?_modify]

theorem adopt_adopt (t : Tree) (parent : NodeId) (ids ids' : List NodeId) :
    (t.adopt parent ids).adopt parent ids' = t.adopt parent (ids ++ ids') := by
  simp only [adopt, modify, Tree.mk.injEq, true_and]
  apply Array.ext_getElem?
  intro i
  simp only [Array.getElem?_modify]
  by_cases h : parent = i
  · simp [h, Function.comp_def]
  · simp [h]

theorem adopt_extend {parent : Nat} (h : parent < t.size) (ids : List NodeId)
    (ns : List Node) : (t.extend ns).adopt parent ids = (t.adopt parent ids).extend ns := by
  simp only [adopt, extend, modify, Tree.mk.injEq, true_and]
  have h' : parent < t.nodes.size := h
  apply Array.ext_getElem?
  intro i
  simp only [Array.getElem?_modify, Array.getElem?_append, Array.size_modify]
  by_cases hi : i < t.nodes.size
  · simp [hi]
  · have hne : parent ≠ i := by omega
    simp [hi, hne]

theorem adopt_size (t : Tree) (n : Node) (ids : List NodeId) :
    (t.extend [n]).adopt t.size ids = t.extend [{ n with children := n.children ++ ids }] := by
  simp only [adopt, extend, modify, size, Tree.mk.injEq, true_and]
  apply Array.ext_getElem?
  intro i
  simp only [Array.getElem?_modify, Array.getElem?_append]
  by_cases hi : i < t.nodes.size
  · have hne : t.nodes.size ≠ i := by omega
    simp [hi, hne]
  · by_cases hlast : t.nodes.size = i
    · simp [hlast]
    · obtain ⟨j, rfl⟩ : ∃ j, i = t.nodes.size + (j + 1) := ⟨i - t.nodes.size - 1, by omega⟩
      simp

theorem adopt_root (path : Path) (n : Node) (ids : List NodeId) :
    adopt { path, nodes := #[n] } rootId ids =
      { path, nodes := #[{ n with children := n.children ++ ids }] } := by
  simpa [extend, size, rootId] using adopt_size { path, nodes := #[] } n ids

theorem attach_eq {parent : NodeId} (h : parent < t.size) (n : Node) :
    t.attach parent n = (t.adopt parent [t.size]).extend [{ n with parent := some parent }] := by
  rw [← adopt_extend h]
  simp [attach, adopt, extend]

mutual

theorem graft_eq {t : Tree} {parent : NodeId} (h : parent < t.size) (o : Outline) :
    t.graft parent o = (t.adopt parent [t.size]).extend (o.rows (some parent) t.size) := by
  match o with
  | .node kind name marks span children =>
    have hsize := size_attach t parent { kind, givenName := name, marks, span }
    have hlast : t.size < (t.attach parent { kind, givenName := name, marks, span }).size := by
      omega
    rw [graft, graftAll_eq hlast children, hsize, attach_eq h, rows]
    have hadopt := adopt_size (t.adopt parent [t.size])
      { kind, givenName := name, marks, span, parent := some parent } (starts (t.size + 1) children)
    rw [size_adopt] at hadopt
    rw [hadopt, extend_extend]
    rfl

theorem graftAll_eq {t : Tree} {parent : NodeId} (h : parent < t.size) (os : List Outline) :
    t.graftAll parent os =
      (t.adopt parent (starts t.size os)).extend (rowsAll parent t.size os) := by
  match os with
  | [] =>
    rw [graftAll, starts, rowsAll]
    simp [adopt_nil, extend_nil]
  | o :: rest =>
    have hgraft := graft_eq h o
    have hsize : (t.graft parent o).size = t.size + o.count := by
      rw [hgraft, size_extend, size_adopt, length_rows]
    have hparent : parent < (t.graft parent o).size := by
      rw [hsize]
      exact Nat.lt_add_right _ h
    have hparent' : parent < (t.adopt parent [t.size]).size := by
      rw [size_adopt]
      exact h
    rw [graftAll, graftAll_eq hparent rest, hsize, hgraft, adopt_extend hparent', adopt_adopt,
      extend_extend, starts, rowsAll]
    rfl

end

theorem ofOutline_eq (path : Path) {o : Outline} (ho : o.kind = .file) :
    ofOutline path o = { path, nodes := (o.rows none rootId).toArray } := by
  obtain ⟨kind, name, marks, span, children⟩ := o
  have hkind : kind = .file := ho
  rw [ofOutline, graftAll_eq Nat.zero_lt_one children, adopt_root, rows, hkind]
  simp [extend, size, rootId]

/-! ### Building with a stack -/

/-- Attaches what waits on a stack, each node below its parent, and puts the outlines inside it on
top of the stack. -/
def attachAll (t : Tree) : List (NodeId × Outline) → Tree
  | [] => t
  | (parent, .node kind name marks span children) :: rest =>
    attachAll (t.attach parent { kind, givenName := name, marks, span })
      (children.map (t.size, ·) ++ rest)
termination_by stack => (preorderAll (stack.map Prod.snd)).length
decreasing_by
  simp only [List.map_append, List.map_map, Function.comp_def, List.attach_map_subtype_val, List.map_cons,
    preorderAll_append, preorderAll, preorder, List.length_append, List.length_cons]
  omega

mutual

theorem attachAll_cons (t : Tree) (parent : NodeId) (o : Outline)
    (rest : List (NodeId × Outline)) :
    t.attachAll ((parent, o) :: rest) = (t.graft parent o).attachAll rest := by
  match o with
  | .node kind name marks span children =>
    rw [attachAll, graft, attachAll_append]

theorem attachAll_append (t : Tree) (parent : NodeId) (os : List Outline)
    (rest : List (NodeId × Outline)) :
    t.attachAll (os.map (parent, ·) ++ rest) = (t.graftAll parent os).attachAll rest := by
  match os with
  | [] => rfl
  | o :: os =>
    rw [List.map_cons, List.cons_append, attachAll_cons, attachAll_append, graftAll]

end

/-! ### The place of each node -/

/-- The nodes stand in the tree from `i` on. -/
def Lays (t : Tree) (i : NodeId) (ns : List Node) : Prop :=
  ∀ j, (h : j < ns.length) → t.node? (i + j) = some ns[j]

theorem lays_append {i : NodeId} {ns ms : List Node} (h : t.Lays i (ns ++ ms)) :
    t.Lays i ns ∧ t.Lays (i + ns.length) ms := by
  constructor
  · intro j hj
    have hj' : j < (ns ++ ms).length := by rw [List.length_append]; omega
    rw [h j hj', List.getElem_append_left hj]
  · intro j hj
    have hj' : ns.length + j < (ns ++ ms).length := by rw [List.length_append]; omega
    have hnode := h (ns.length + j) hj'
    rw [List.getElem_append_right (Nat.le_add_right _ _)] at hnode
    simpa [Nat.add_assoc] using hnode

theorem lays_cons {i : NodeId} {n : Node} {ns : List Node} (h : t.Lays i (n :: ns)) :
    t.node? i = some n ∧ t.Lays (i + 1) ns := by
  have hfirst := h 0 (Nat.zero_lt_succ _)
  have happend : t.Lays i ([n] ++ ns) := h
  exact ⟨hfirst, (lays_append happend).2⟩

theorem lays_ofOutline (path : Path) {o : Outline} (ho : o.kind = .file) :
    (ofOutline path o).Lays rootId (o.rows none rootId) := by
  intro j hj
  rw [ofOutline_eq path ho]
  simp [node?, rootId]

/-- A node of the tree is what the outline says: it has the data, its children are the outlines
inside, in order, and they name it as their parent. -/
inductive Holds (t : Tree) : NodeId → Outline → Prop
  | node {id : NodeId} {n : Node} {o : Outline} (found : t.node? id = some n)
      (content : n.bare = o.content) (inside : ∀ c ∈ n.children, t.parent? c = some id)
      (children : List.Forall₂ (Holds t) n.children o.children) : Holds t id o

mutual

theorem holds_of_lays {i : NodeId} {parent : Option NodeId} {o : Outline}
    (h : t.Lays i (o.rows parent i)) : t.Holds i o ∧ t.parent? i = parent := by
  match o with
  | .node kind name marks span children =>
    rw [rows] at h
    obtain ⟨hnode, hrest⟩ := lays_cons h
    obtain ⟨hchildren, hinside⟩ := forall₂_holds_of_lays hrest
    refine ⟨.node hnode rfl hinside hchildren, ?_⟩
    rw [parent?, hnode]
    rfl

theorem forall₂_holds_of_lays {i parent : NodeId} {os : List Outline}
    (h : t.Lays i (rowsAll parent i os)) :
    List.Forall₂ t.Holds (starts i os) os ∧ ∀ c ∈ starts i os, t.parent? c = some parent := by
  match os with
  | [] => exact ⟨.nil, by simp [starts]⟩
  | o :: rest =>
    rw [rowsAll] at h
    obtain ⟨hfirst, hrest⟩ := lays_append h
    rw [length_rows] at hrest
    obtain ⟨hholds, hparent⟩ := holds_of_lays hfirst
    obtain ⟨hholds', hparent'⟩ := forall₂_holds_of_lays hrest
    rw [starts, List.forall_mem_cons]
    exact ⟨.cons hholds hholds', hparent, hparent'⟩

end

/-! ### Walking -/

mutual

theorem walkFrom_of_lays (ht : t.Linked) {i : Nat} {parent : Option NodeId} {o : Outline}
    (h : t.Lays i (o.rows parent i)) : t.walkFrom i = List.range' i o.count := by
  match o with
  | .node kind name marks span children =>
    rw [rows] at h
    obtain ⟨hnode, hrest⟩ := lays_cons h
    have hi : i < t.size := (Array.getElem?_eq_some_iff.mp hnode).1
    have hchildren : t.childrenOf i = starts (i + 1) children := by
      rw [childrenOf, hnode]
      rfl
    rw [walkFrom_eq ht hi, hchildren, flatMap_walkFrom_of_lays ht hrest, count_node,
      List.range'_succ]

theorem flatMap_walkFrom_of_lays (ht : t.Linked) {i : Nat} {parent : NodeId} {os : List Outline}
    (h : t.Lays i (rowsAll parent i os)) :
    (starts i os).flatMap t.walkFrom = List.range' i (preorderAll os).length := by
  match os with
  | [] => rfl
  | o :: rest =>
    rw [rowsAll] at h
    obtain ⟨hfirst, hrest⟩ := lays_append h
    rw [length_rows] at hrest
    rw [starts, List.flatMap_cons, walkFrom_of_lays ht hfirst, flatMap_walkFrom_of_lays ht hrest,
      preorderAll, List.length_append, count, List.range'_append_1]

end

/-! ### Reading an outline back -/

/-- The nested form of a node, if it is at most so many levels deep and all its nodes are there. -/
def outlineFrom? (t : Tree) : Nat → NodeId → Option Outline
  | 0, _ => none
  | depth + 1, id => do
    let n ← t.node? id
    return .node n.kind n.givenName n.marks n.span (← n.children.mapM (t.outlineFrom? depth))

/-- The nested form of the tree. No path down from the file node is longer than the tree has
nodes. -/
def outline? (t : Tree) : Option Outline := t.outlineFrom? t.size rootId

theorem outlineFrom?_of_holds {depth : Nat} {id : NodeId} {o : Outline} (h : t.Holds id o)
    (hdepth : o.count ≤ depth) : t.outlineFrom? depth id = some o := by
  induction depth generalizing id o with
  | zero =>
    obtain ⟨kind, name, marks, span, children⟩ := o
    rw [count_node] at hdepth
    omega
  | succ depth ih =>
    obtain ⟨kind, name, marks, span, children⟩ := o
    obtain ⟨hnode, hcontent, -, hchildren⟩ := h
    rename_i n
    rw [count_node] at hdepth
    -- Each child is smaller than the outline, so the depth suffices for it.
    have hread : n.children.mapM (t.outlineFrom? depth) = some children := by
      apply Success.mapM_eq_some_of_forall₂
      refine List.forall₂_of_length_eq_of_get hchildren.length_eq fun i hi hi' => ?_
      apply ih (hchildren.get hi hi')
      exact Nat.le_trans (count_le_of_mem (List.get_mem children ⟨i, hi'⟩)) (by omega)
    rw [outlineFrom?, hnode]
    simp only [Node.bare, content, Node.mk.injEq] at hcontent
    simp [hread, hcontent]

/-- The tree of an outline has one node for each of the outline's, numbered in pre-order, with the
same data and in the same place. It is what a stack of waiting outlines builds, a walk goes through
its numbers in turn, and the outline can be read back from it. -/
theorem ofOutline_keeps_structure (path : Path) {name : Option String} {marks : List Mark}
    {span : Span} {children : List Outline} {o : Outline}
    (ho : o = .node .file name marks span children) {t : Tree} (ht : t = ofOutline path o) :
    t = attachAll { path, nodes := #[{ kind := .file, givenName := name, marks, span }] }
      (children.map (rootId, ·)) ∧
    t.size = o.preorder.length ∧
    (∀ i, (t.node? i).map Node.bare = (o.preorder[i]?).map content) ∧
    (t.Holds rootId o ∧ t.parent? rootId = none) ∧
    (∀ p c, c ∈ t.childrenOf p ↔ t.parent? c = some p) ∧
    t.walk = List.range t.size ∧
    t.outline? = some o := by
  have hkind : o.kind = .file := ho ▸ rfl
  have hlinked : t.Linked := ht ▸ linked_ofOutline path o
  have hlays : t.Lays rootId (o.rows none rootId) := ht ▸ lays_ofOutline path hkind
  have hnodes : t.nodes.toList = o.rows none rootId := by rw [ht, ofOutline_eq path hkind]
  have hsize : t.size = o.count := by
    rw [size, ← Array.length_toList, hnodes, length_rows]
  have hholds := holds_of_lays hlays
  refine ⟨?_, hsize, ?_, hholds, fun p c => hlinked.mem_childrenOf, ?_, ?_⟩
  · have hstack := attachAll_append
      { path, nodes := #[{ kind := .file, givenName := name, marks, span }] } rootId children []
    rw [List.append_nil] at hstack
    rw [hstack, ht, ho, ofOutline, attachAll]
  · intro i
    rw [node?, ← Array.getElem?_toList, hnodes, ← List.getElem?_map, ← List.getElem?_map,
      map_bare_rows]
  · rw [walk, walkFrom_of_lays hlinked hlays, hsize, List.range_eq_range']
    rfl
  · exact outlineFrom?_of_holds hholds.1 (Nat.le_of_eq hsize.symm)

/-- A class with a function in it, and a function next to it. -/
def twoDeep : Outline :=
  .node .file none [] (.lines 1 30)
    [.node .classType (some "A") [{ name := "Suppress", args := ["all"] }] (.lines 2 20)
        [.node .function (some "f") [] (.lines 3 9) [.node .parameter none [] {} []]],
      .node .function (some "") [] (.lines 22 25) []]

theorem ofOutline_keeps_twoDeep :
    (ofOutline ⟨"A.kt"⟩ twoDeep).size = 5 ∧
    (ofOutline ⟨"A.kt"⟩ twoDeep).walk = [0, 1, 2, 3, 4] ∧
    (ofOutline ⟨"A.kt"⟩ twoDeep).parent? 4 = some rootId ∧
    (ofOutline ⟨"A.kt"⟩ twoDeep).outline? = some twoDeep := by
  obtain ⟨-, hsize, -, -, hlinks, hwalk, hback⟩ :=
    ofOutline_keeps_structure ⟨"A.kt"⟩ (o := twoDeep) rfl rfl
  have hcount : twoDeep.preorder.length = 5 := rfl
  rw [hsize, hcount] at hwalk
  exact ⟨hsize.trans hcount, hwalk, (hlinks rootId 4).mp (by decide), hback⟩

end Tree

end CodeAudit
