import CodeAudit.Text.Blank
import Mathlib.Data.List.DropRight

namespace CodeAudit.Text

variable {p q : Char → Bool}

theorem dropWhile_append_of_all {b : List Char} (hb : ∀ c ∈ b, q c = true) (m : List Char) :
    (m ++ b).dropWhile q = if (m.dropWhile q).isEmpty then [] else m.dropWhile q ++ b := by
  have hnil : b.dropWhile q = [] := by
    have h : (b ++ []).dropWhile q = [].dropWhile q := List.dropWhile_append_of_pos hb
    simpa using h
  rw [List.dropWhile_append, hnil]

theorem trimList_append {a b : List Char} (ha : ∀ c ∈ a, q c = true) (hb : ∀ c ∈ b, q c = true)
    (m : List Char) : trimList q (a ++ (m ++ b)) = trimList q m := by
  unfold trimList
  rw [List.dropWhile_append_of_pos ha, dropWhile_append_of_all hb]
  by_cases h : (m.dropWhile q).isEmpty = true
  · rw [if_pos h, List.isEmpty_iff.mp h]
  · rw [if_neg h, List.reverse_append, List.dropWhile_append_of_pos]
    simpa using hb

theorem exists_eq_append_trimList (p : Char → Bool) (cs : List Char) :
    ∃ a b, cs = a ++ (trimList p cs ++ b) ∧ (∀ c ∈ a, p c = true) ∧ ∀ c ∈ b, p c = true := by
  have hback : cs.dropWhile p =
      trimList p cs ++ ((cs.dropWhile p).reverse.takeWhile p).reverse := by
    unfold trimList
    rw [← List.reverse_append, List.takeWhile_append_dropWhile, List.reverse_reverse]
  refine ⟨cs.takeWhile p, ((cs.dropWhile p).reverse.takeWhile p).reverse, ?_, ?_, ?_⟩
  · rw [← hback, List.takeWhile_append_dropWhile]
  · intro c hc
    exact List.all_eq_true.mp List.all_takeWhile c hc
  · intro c hc
    exact List.all_eq_true.mp List.all_takeWhile c (List.mem_reverse.mp hc)

/-- Trimming for a smaller class first makes no difference. -/
theorem trimList_trimList (h : ∀ c, p c = true → q c = true) (cs : List Char) :
    trimList q (trimList p cs) = trimList q cs := by
  obtain ⟨a, b, hcs, ha, hb⟩ := exists_eq_append_trimList p cs
  calc
    trimList q (trimList p cs) = trimList q (a ++ (trimList p cs ++ b)) :=
      (trimList_append (fun c hc => h c (ha c hc)) (fun c hc => h c (hb c hc)) _).symm
    _ = trimList q cs := by rw [← hcs]

theorem dropWhile_eq_self_iff {cs : List Char} :
    cs.dropWhile p = cs ↔ cs.head?.all fun c => !p c := by
  cases cs with
  | nil => simp
  | cons c rest =>
    by_cases hc : p c = true
    · have hshort := (List.dropWhile_suffix (l := rest) p).length_le
      have hne : rest.dropWhile p ≠ c :: rest := by
        intro heq
        rw [heq, List.length_cons] at hshort
        omega
      simp [hc, hne]
    · simp [hc]

theorem trimList_eq_self_iff {cs : List Char} :
    trimList p cs = cs ↔ (cs.head?.all fun c => !p c) ∧ cs.getLast?.all fun c => !p c := by
  have hlast : cs.getLast? = cs.reverse.head? := by simp
  rw [hlast, ← dropWhile_eq_self_iff, ← dropWhile_eq_self_iff]
  unfold trimList
  constructor
  · intro h
    -- Each of the two cuts can only shorten the text, so neither took anything off.
    have hback := (List.dropWhile_suffix (l := (cs.dropWhile p).reverse) p).length_le
    have hfront := List.dropWhile_suffix (l := cs) p
    have hlength := congrArg List.length h
    rw [List.length_reverse] at hlength hback
    have hself : cs.dropWhile p = cs := hfront.eq_of_length (by have := hfront.length_le; omega)
    rw [hself] at h
    exact ⟨hself, List.reverse_eq_iff.mp h⟩
  · rintro ⟨hfront, hback⟩
    rw [hfront, hback, List.reverse_reverse]

theorem trimList_append_of_solid {a : List Char} (hne : a ≠ [])
    (ha : (a.head?.all fun c => !p c) ∧ a.getLast?.all fun c => !p c) (m : List Char) :
    trimList p (a ++ m) = a ++ m.rdropWhile p := by
  have hfront : (a ++ m).dropWhile p = a ++ m := by
    rw [dropWhile_eq_self_iff, List.head?_append_of_ne_nil a hne]
    exact ha.1
  have hback : a.reverse.dropWhile p = a.reverse := by
    rw [dropWhile_eq_self_iff, List.head?_reverse]
    exact ha.2
  rw [trimList, hfront, List.reverse_append, List.dropWhile_append, hback, List.rdropWhile]
  split
  next h => rw [List.isEmpty_iff.mp h, List.reverse_nil, List.append_nil, List.reverse_reverse]
  next => rw [List.reverse_append, List.reverse_reverse]

theorem length_trimList_le (p : Char → Bool) (cs : List Char) :
    (trimList p cs).length ≤ cs.length := by
  obtain ⟨a, b, hcs, -, -⟩ := exists_eq_append_trimList p cs
  have hlength := congrArg List.length hcs
  simp only [List.length_append] at hlength
  omega

def trimEnd (s : String) : String := String.ofList (s.toList.rdropWhile isBlank)

theorem trimEnd_eq_self_iff {s : String} :
    trimEnd s = s ↔ s.toList.getLast?.all fun c => !isBlank c := by
  rw [trimEnd, ← String.toList_inj, String.toList_ofList, List.rdropWhile, List.reverse_eq_iff,
    dropWhile_eq_self_iff, List.head?_reverse]

theorem isBlank_of_isAsciiBlank {c : Char} (h : isAsciiBlank c = true) : isBlank c = true := by
  simp only [isAsciiBlank, Bool.or_eq_true, beq_iff_eq] at h
  rcases h with ((rfl | rfl) | rfl) | rfl <;> decide

theorem trim_trim (s : String) : trim (trim s) = trim s := by
  simp [trim, trimList_trimList]

/-! ### Texts that are written character by character -/

theorem dropWhile_flatMap {f : Char → List Char} (hblank : ∀ c, p c = true → f c = [c])
    (hother : ∀ c, p c = false → ∃ d ds, f c = d :: ds ∧ p d = false) (cs : List Char) :
    (cs.flatMap f).dropWhile p = (cs.dropWhile p).flatMap f := by
  induction cs with
  | nil => rfl
  | cons c rest ih =>
    rw [List.flatMap_cons]
    cases hc : p c with
    | true => rw [hblank c hc, List.singleton_append, List.dropWhile_cons_of_pos hc, ih,
        List.dropWhile_cons_of_pos hc]
    | false =>
      obtain ⟨d, ds, hf, hd⟩ := hother c hc
      rw [List.dropWhile_cons_of_neg (by simp [hc]), List.flatMap_cons, hf, List.cons_append,
        List.dropWhile_cons_of_neg (by simp [hd])]

/-- Writing commutes with trimming when it leaves the class alone and puts none of it at either end
of what it writes for another character. -/
theorem trimList_flatMap {f : Char → List Char} (hblank : ∀ c, p c = true → f c = [c])
    (hfront : ∀ c, p c = false → ∃ d ds, f c = d :: ds ∧ p d = false)
    (hback : ∀ c, p c = false → ∃ d ds, (f c).reverse = d :: ds ∧ p d = false) (cs : List Char) :
    trimList p (cs.flatMap f) = (trimList p cs).flatMap f := by
  unfold trimList
  rw [dropWhile_flatMap hblank hfront, List.reverse_flatMap, dropWhile_flatMap,
    List.reverse_flatMap]
  · simp [Function.comp_def]
  · intro c hc
    simp [hblank c hc]
  · exact hback

end CodeAudit.Text
