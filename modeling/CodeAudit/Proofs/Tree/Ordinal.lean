import CodeAudit.Proofs.Tree.Duality
import CodeAudit.Proofs.Tree.Outcome

namespace CodeAudit.Tree

variable {t : Tree}

/-- The nearest declaration around a node without the node itself; none at file level. -/
def outerDeclaration (t : Tree) (id : NodeId) : Option NodeId :=
  (t.ancestors id).tail.find? (t.kindIs NodeKind.isDeclaration)

/-- The unnamed declarations of the whole tree in pre-order, as far as the given declaration is the
nearest one around them. -/
def unnamedIn (t : Tree) (holder : Option NodeId) : List NodeId :=
  t.walk.filter fun n => t.isAnonymous n && t.outerDeclaration n == holder

theorem owner_eq_outerDeclaration (h : t.Linked) {id : Nat} (hid : id < t.size) :
    t.owner id = t.outerDeclaration id := by
  unfold owner outerDeclaration enclosingDeclaration
  rw [ancestors_eq h hid, List.tail_cons]
  cases t.parent? id <;> rfl

/-! ### One count for each declaration -/

/-- What occurs within one node only is met on the walk from that node in the same order as on the
walk of the whole tree. -/
theorem filter_walk_eq (h : t.Made) {d : Nat} (hd : d < t.size) {p : NodeId → Bool}
    (hp : ∀ n, p n = true → t.Within d n) : t.walk.filter p = (t.walkFrom d).filter p := by
  have hroot : rootId < t.size := h.rooted.size_pos
  have hwithin : t.Within rootId d := (mem_walkFrom_iff h.linked hroot).mp (h.mem_walk hd)
  obtain ⟨before, after, hwalk⟩ := walkFrom_isInfix h.linked hwithin
  have hnodup : (before ++ t.walkFrom d ++ after).Nodup := by
    rw [hwalk]
    exact nodup_walkFrom h.linked hroot
  rw [List.nodup_append, List.nodup_append] at hnodup
  obtain ⟨⟨-, -, hbefore⟩, -, hafter⟩ := hnodup
  have hmem : ∀ n, p n = true → n ∈ t.walkFrom d := fun n hn =>
    (mem_walkFrom_iff h.linked hd).mpr (hp n hn)
  -- No node is listed twice, so what is met on the walk from `d` is met nowhere else.
  have hnone_before : before.filter p = [] := by
    rw [List.filter_eq_nil_iff]
    exact fun n hn hpn => hbefore n hn n (hmem n hpn) rfl
  have hnone_after : after.filter p = [] := by
    rw [List.filter_eq_nil_iff]
    exact fun n hn hpn => hafter n (List.mem_append_right before (hmem n hpn)) n hn rfl
  rw [walk, ← hwalk, List.filter_append, List.filter_append, hnone_before, hnone_after,
    List.nil_append, List.append_nil]

theorem of_owner (h : t.Linked) {d n : Nat} (hn : t.owner n = some d) : t.Within d n ∧ d < n := by
  obtain ⟨p, hp, hwithin⟩ := exists_parent_of_owner hn
  exact ⟨.inside hp hwithin, Nat.lt_of_le_of_lt (hwithin.le h.loose) (h.parent_lt hp)⟩

/-- The walk from a declaration counts the unnamed declarations that it holds, and no others. -/
theorem anonymousOf_eq_unnamedIn (h : t.Made) (holder : Option NodeId) :
    t.anonymousOf holder = t.unnamedIn holder := by
  have hroot : rootId < t.size := h.rooted.size_pos
  have hlt : ∀ n ∈ t.walk, n < t.size := fun n hn =>
    ((mem_walkFrom_iff h.linked hroot).mp hn).lt_size hroot
  have hlisted : t.unnamedIn holder =
      t.walk.filter fun n => t.isAnonymous n && t.owner n == holder := by
    refine List.filter_congr fun n hn => ?_
    rw [owner_eq_outerDeclaration h.linked (hlt n hn)]
  rw [hlisted]
  cases holder with
  | none =>
    -- At file level the walk is that of the whole tree, and its start is not left out.
    refine List.filter_congr fun n _ => ?_
    simp
  | some d =>
    have howned : ∀ n, (t.isAnonymous n && t.owner n == some d) = true → t.owner n = some d :=
      fun n hn => by simpa using (Bool.and_eq_true_iff.mp hn).2
    by_cases hd : d < t.size
    · rw [filter_walk_eq h hd fun n hn => (of_owner h.linked (howned n hn)).1]
      refine List.filter_congr fun n _ => ?_
      by_cases hn : t.owner n = some d
      · have hne : n ≠ d := Nat.ne_of_gt (of_owner h.linked hn).2
        simp [hn, hne]
      · rw [beq_false_of_ne hn, Bool.and_false, Bool.and_false]
    · have hnone : t.walk.filter (fun n => t.isAnonymous n && t.owner n == some d) = [] := by
        rw [List.filter_eq_nil_iff]
        intro n hmem hn
        have hle := (of_owner h.linked (howned n hn)).2
        exact hd (Nat.lt_trans hle (hlt n hmem))
      rw [hnone, anonymousOf, Option.getD_some, walkFrom, if_neg hd, List.filter_nil]

/-! ### Positions -/

theorem findIdx?_getElem_of_nodup {l : List NodeId} (h : l.Nodup) {i : Nat} (hi : i < l.length) :
    l.findIdx? (· == l[i]) = some i := by
  rw [List.findIdx?_eq_some_iff_getElem]
  refine ⟨hi, beq_self_eq_true _, fun j hj heq => ?_⟩
  exact absurd (h.getElem_inj_iff.mp (beq_iff_eq.mp heq)) (Nat.ne_of_lt hj)

theorem nodup_unnamedIn (h : t.Made) (holder : Option NodeId) : (t.unnamedIn holder).Nodup :=
  (nodup_walkFrom h.linked h.rooted.size_pos).filter _

theorem owner_of_mem_unnamedIn (h : t.Made) {holder : Option NodeId} {n : Nat}
    (hn : n ∈ t.unnamedIn holder) : t.owner n = holder := by
  have hroot : rootId < t.size := h.rooted.size_pos
  obtain ⟨hmem, hn⟩ := List.mem_filter.mp hn
  have hlt := ((mem_walkFrom_iff h.linked hroot).mp hmem).lt_size hroot
  rw [owner_eq_outerDeclaration h.linked hlt]
  simpa using (Bool.and_eq_true_iff.mp hn).2

theorem anonymousOrdinal_getElem (h : t.Made) {holder : Option NodeId} {i : Nat}
    (hi : i < (t.unnamedIn holder).length) : t.anonymousOrdinal (t.unnamedIn holder)[i] = i := by
  have howner := owner_of_mem_unnamedIn h (List.getElem_mem hi)
  have hplace := findIdx?_getElem_of_nodup (nodup_unnamedIn h holder) hi
  rw [anonymousOrdinal, howner, anonymousOf_eq_unnamedIn h, hplace, Option.getD_some]

theorem map_anonymousOrdinal (h : t.Made) (holder : Option NodeId) :
    (t.unnamedIn holder).map t.anonymousOrdinal = List.range (t.unnamedIn holder).length := by
  apply List.ext_getElem
  · simp
  · intro i hi _
    rw [List.getElem_map, List.getElem_range]
    exact anonymousOrdinal_getElem h (by simpa using hi)

/-! ### Segments -/

/-- The segment of an unnamed declaration with the given number. -/
def numbered (k : Nat) : String := "<anonymous#" ++ toString k ++ ">"

theorem numbered_injective : Function.Injective numbered := by
  intro j k h
  have htext : toString j = toString k :=
    (String.append_right_inj "<anonymous#").mp ((String.append_left_inj ">").mp h)
  rw [Nat.toString_eq_ofList_toDigits, Nat.toString_eq_ofList_toDigits] at htext
  have hdigits : Nat.toDigits 10 j = Nat.toDigits 10 k := by
    simpa using congrArg String.toList htext
  rw [← Nat.ofDigitChars_ten_toDigits (n := j), hdigits, Nat.ofDigitChars_ten_toDigits]

theorem segment_eq_numbered {n : NodeId} (h : t.isAnonymous n = true) :
    t.segment n = numbered (t.anonymousOrdinal n) := by
  unfold isAnonymous at h
  unfold segment
  cases hnode : t.node? n with
  | none => simp [hnode] at h
  | some a =>
    rw [hnode, Option.map_some, Option.getD_some, Node.isAnonymousDeclaration,
      Bool.and_eq_true_iff, Option.isNone_iff_eq_none] at h
    simp only [h.2]
    rfl

theorem map_segment_unnamedIn (h : t.Made) (holder : Option NodeId) :
    (t.unnamedIn holder).map t.segment =
      (List.range (t.unnamedIn holder).length).map numbered := by
  rw [← map_anonymousOrdinal h, List.map_map]
  refine List.map_congr_left fun n hn => segment_eq_numbered ?_
  exact (Bool.and_eq_true_iff.mp (List.mem_filter.mp hn).2).1

/-- The unnamed declarations of one owner, or of the file level, are numbered from zero on in
pre-order, at whatever depth they are, and no two of them have the same segment. The count comes by
every unnamed declaration. -/
theorem unnamed_numbered_in_preorder (h : t.Made) :
    (∀ holder : Option NodeId,
      (t.unnamedIn holder).map t.anonymousOrdinal = List.range (t.unnamedIn holder).length ∧
      ((t.unnamedIn holder).map t.segment).Nodup) ∧
    ∀ n : Nat, n < t.size → t.isAnonymous n = true →
      n ∈ t.unnamedIn (t.outerDeclaration n) ∧
      ((t.anonymousOf (t.owner n)).findIdx? (· == n)).isSome = true := by
  refine ⟨fun holder => ⟨map_anonymousOrdinal h holder, ?_⟩, fun n hn hanonymous => ?_⟩
  · rw [map_segment_unnamedIn h]
    exact List.nodup_range.map numbered_injective
  · have hmem : n ∈ t.unnamedIn (t.outerDeclaration n) :=
      List.mem_filter.mpr ⟨h.mem_walk hn, by simp [hanonymous]⟩
    refine ⟨hmem, ?_⟩
    rw [owner_eq_outerDeclaration h.linked hn, anonymousOf_eq_unnamedIn h, List.findIdx?_isSome,
      List.any_eq_true]
    exact ⟨n, hmem, beq_self_eq_true n⟩

/-- A function with a lambda in it that holds another one, and with a lambda inside a block; a
lambda at file level before it. -/
def nestedLambdas : Tree := ofOutline ⟨"a/Foo.kt"⟩ <|
  .node .file none [] {}
    [.node .lambda none [] {} [],
     .node .function (some "f") [] {}
      [.node .lambda none [] {} [.node .lambda none [] {} []],
       .node .block none [] {} [.node .lambda (some "") [] {} []]]]

theorem unnamed_numbered_in_nestedLambdas :
    nestedLambdas.Made ∧ nestedLambdas.unnamedIn (some 2) = [3, 6] ∧
      nestedLambdas.unnamedIn none = [1] ∧ nestedLambdas.anonymousOrdinal 6 = 1 ∧
      nestedLambdas.segment 3 ≠ nestedLambdas.segment 6 ∧
      nestedLambdas.outerDeclaration 4 = some 3 ∧
      ((nestedLambdas.anonymousOf (nestedLambdas.owner 4)).findIdx? (· == 4)).isSome = true := by
  have hmade : nestedLambdas.Made := .nested _ _
  have hlist : nestedLambdas.unnamedIn (some 2) = [3, 6] := by decide
  obtain ⟨hlists, hall⟩ := unnamed_numbered_in_preorder hmade
  obtain ⟨hordinals, hsegments⟩ := hlists (some 2)
  rw [hlist] at hordinals hsegments
  refine ⟨hmade, hlist, by decide, ?_, ?_, by decide, (hall 4 (by decide) (by decide)).2⟩
  · exact (List.cons.inj (List.cons.inj hordinals).2).1
  · simpa using hsegments

end CodeAudit.Tree
