import CodeAudit.Proofs.Text.Trim
import CodeAudit.Xml.Entity

namespace CodeAudit.Xml

theorem escapeChar_eq (c : Char) :
    (escapeChar c = [c] ∧ c ≠ '&' ∧ c ≠ '<') ∨
      ∃ name, escapeChar c = '&' :: (name ++ [';']) ∧ entity? name = some c ∧
        (∀ x ∈ name, x ≠ ';' ∧ x ≠ '&' ∧ x ≠ '<') ∧ Text.isAsciiBlank c = false := by
  unfold escapeChar
  split
  · exact .inr ⟨"lt".toList, by decide, by decide, by simp, by decide⟩
  · exact .inr ⟨"gt".toList, by decide, by decide, by simp, by decide⟩
  · exact .inr ⟨"amp".toList, by decide, by decide, by simp, by decide⟩
  · exact .inr ⟨"apos".toList, by decide, by decide, by simp, by decide⟩
  · exact .inr ⟨"quot".toList, by decide, by decide, by simp, by decide⟩
  · rename_i hlt _ hamp _ _
    exact .inl ⟨rfl, hamp, hlt⟩

theorem unescapeFrom?_name {name : List Char} (h : ∀ x ∈ name, x ≠ ';' ∧ x ≠ '&')
    (seen rest : List Char) :
    unescapeFrom? (some seen) (name ++ ';' :: rest) =
      (entity? (seen.reverse ++ name)).bind fun e => (unescapeFrom? none rest).map (e :: ·) := by
  induction name generalizing seen with
  | nil =>
    simp [unescapeFrom?]
  | cons x name ih =>
    obtain ⟨hx, hname⟩ := List.forall_mem_cons.mp h
    rw [List.cons_append, unescapeFrom?, if_neg (by simpa using hx.1), if_neg (by simpa using hx.2),
      ih hname]
    simp

theorem unescapeFrom?_escapeChar (c : Char) (rest : List Char) :
    unescapeFrom? none (escapeChar c ++ rest) = (unescapeFrom? none rest).map (c :: ·) := by
  rcases escapeChar_eq c with ⟨hc, hamp, -⟩ | ⟨name, hc, hentity, hname, -⟩
  · rw [hc, List.singleton_append, unescapeFrom?, if_neg (by simpa using hamp)]
  · have hbegin : unescapeFrom? none ('&' :: (name ++ ';' :: rest)) =
        unescapeFrom? (some []) (name ++ ';' :: rest) := by rw [unescapeFrom?, if_pos (by simp)]
    rw [hc, List.cons_append, List.append_assoc, List.singleton_append, hbegin,
      unescapeFrom?_name fun x hx => ⟨(hname x hx).1, (hname x hx).2.1⟩, List.reverse_nil,
      List.nil_append, hentity]
    rfl

theorem unescapeList?_escapeList (cs : List Char) : unescapeList? (escapeList cs) = some cs := by
  unfold unescapeList? escapeList
  induction cs with
  | nil => rfl
  | cons c rest ih => rw [List.flatMap_cons, unescapeFrom?_escapeChar, ih, Option.map_some]

theorem escapeList_no_markup (cs : List Char) : '<' ∉ escapeList cs := by
  intro h
  obtain ⟨c, -, h⟩ := List.mem_flatMap.mp h
  rcases escapeChar_eq c with ⟨hc, -, hlt⟩ | ⟨name, hc, -, hname, -⟩
  · rw [hc, List.mem_singleton] at h
    exact hlt h.symm
  · rw [hc] at h
    simp only [List.mem_cons, List.mem_append, List.not_mem_nil, or_false] at h
    rcases h with h | h | h
    · exact absurd h (by decide)
    · exact (hname _ h).2.2 rfl
    · exact absurd h (by decide)

theorem trimList_escapeList (cs : List Char) :
    Text.trimList Text.isAsciiBlank (escapeList cs) =
      escapeList (Text.trimList Text.isAsciiBlank cs) := by
  unfold escapeList
  apply Text.trimList_flatMap
  · intro c hblank
    rcases escapeChar_eq c with ⟨hc, -⟩ | ⟨_, _, _, _, hother⟩
    · exact hc
    · exact absurd hblank (by simp [hother])
  · intro c hother
    rcases escapeChar_eq c with ⟨hc, -⟩ | ⟨name, hc, -⟩
    · exact ⟨c, [], hc, hother⟩
    · exact ⟨'&', name ++ [';'], hc, by decide⟩
  · intro c hother
    rcases escapeChar_eq c with ⟨hc, -⟩ | ⟨name, hc, -⟩
    · exact ⟨c, [], by rw [hc]; rfl, hother⟩
    · exact ⟨';', name.reverse ++ ['&'], by simp [hc], by decide⟩

end CodeAudit.Xml
