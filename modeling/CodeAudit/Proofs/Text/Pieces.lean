import CodeAudit.Text.Pieces
import Mathlib.Data.List.Basic

namespace CodeAudit.Text

/-! ### Cutting -/

theorem cutAt?_eq_some_iff {sep : Char} {cs before rest : List Char} :
    cutAt? (· == sep) cs = some (before, rest) ↔ cs = before ++ sep :: rest ∧ sep ∉ before := by
  constructor
  · intro h
    have hwhole := List.takeWhile_append_dropWhile (p := fun c => !(c == sep)) (l := cs)
    unfold cutAt? at h
    split at h
    · cases h
    next c behind hbehind =>
      obtain ⟨rfl, rfl⟩ := Prod.mk.inj (Option.some.inj h)
      -- What `dropWhile` leaves begins with the separator.
      have hhead := List.head?_dropWhile_not (fun c => !(c == sep)) cs
      have hsep : c = sep := by simpa [hbehind] using hhead
      rw [hbehind, hsep] at hwhole
      refine ⟨hwhole.symm, fun hmem => ?_⟩
      have hall := List.all_eq_true.mp List.all_takeWhile sep hmem
      simp at hall
  · rintro ⟨rfl, hbefore⟩
    have hall : ∀ c ∈ before, (!(c == sep)) = true := by
      intro c hc
      have hne : c ≠ sep := fun heq => hbefore (heq ▸ hc)
      simpa using hne
    unfold cutAt?
    rw [List.dropWhile_append_of_pos hall, List.takeWhile_append_of_pos hall]
    simp

/-! ### Replacing -/

variable {o : Char} {os new cs : List Char}

theorem dropLead?_eq_none_iff {lead : List Char} : dropLead? lead cs = none ↔ ¬ lead <+: cs := by
  rw [Option.eq_none_iff_forall_ne_some]
  constructor
  · rintro h ⟨rest, rfl⟩
    exact h rest (dropLead?_eq_some_iff.mpr rfl)
  · intro h rest hrest
    exact h ⟨rest, (dropLead?_eq_some_iff.mp hrest).symm⟩

@[simp] theorem replaceList_nil (old new : List Char) : replaceList old new [] = [] := by
  rw [replaceList]

theorem replaceList_append_self (rest : List Char) :
    replaceList (o :: os) new ((o :: os) ++ rest) = new ++ replaceList (o :: os) new rest := by
  rw [List.cons_append, replaceList]
  have hlead : dropLead? (o :: os) (o :: (os ++ rest)) = some rest := dropLead?_eq_some_iff.mpr rfl
  split
  next after hafter => rw [Option.some.inj (hlead.symm.trans hafter)]
  next hnone => cases hlead.symm.trans hnone

theorem replaceList_cons {c : Char} (h : ¬ (o :: os) <+: c :: cs) :
    replaceList (o :: os) new (c :: cs) = c :: replaceList (o :: os) new cs := by
  rw [replaceList]
  split
  next after hafter => cases (dropLead?_eq_none_iff.mpr h).symm.trans hafter
  next => rfl

theorem replaceList_singleton (o : Char) (new cs : List Char) :
    replaceList [o] new cs = cs.flatMap fun c => if c = o then new else [c] := by
  induction cs with
  | nil => rw [replaceList, List.flatMap_nil]
  | cons c cs ih =>
    rw [List.flatMap_cons, ← ih]
    split
    next h => exact h ▸ replaceList_append_self cs
    next hne => exact replaceList_cons fun hlead => hne (List.cons_prefix_cons.mp hlead).1.symm

theorem replaceList_append_of_not_mem {a : List Char} (h : o ∉ a) (rest : List Char) :
    replaceList (o :: os) new (a ++ rest) = a ++ replaceList (o :: os) new rest := by
  induction a with
  | nil => rfl
  | cons c a ih =>
    obtain ⟨hc, ha⟩ := not_or.mp (List.mem_cons.not.mp h)
    rw [List.cons_append, replaceList_cons, ih ha, List.cons_append]
    exact fun hlead => hc (List.cons_prefix_cons.mp hlead).1

/-! ### Counting -/

/-- The number of places at which a list of characters occurs in another. -/
def occurrencesIn (part : List Char) : List Char → Nat
  | [] => if part.isEmpty then 1 else 0
  | c :: cs => (if part.isPrefixOf (c :: cs) then 1 else 0) + occurrencesIn part cs

/-- The number of places at which a text occurs in another. -/
def occurrences (part s : String) : Nat := occurrencesIn part.toList s.toList

theorem occurrencesIn_cons_of_lead {part : List Char} {c : Char} (h : part <+: c :: cs) :
    occurrencesIn part (c :: cs) = 1 + occurrencesIn part cs := by
  rw [occurrencesIn, if_pos (List.isPrefixOf_iff_prefix.mpr h)]

theorem occurrencesIn_cons {part : List Char} {c : Char} (h : ¬ part <+: c :: cs) :
    occurrencesIn part (c :: cs) = occurrencesIn part cs := by
  rw [occurrencesIn, if_neg (mt List.isPrefixOf_iff_prefix.mp h), Nat.zero_add]

/-- No occurrence begins in a stretch without its first character. -/
theorem occurrencesIn_append_of_not_mem {a : List Char} (h : o ∉ a) (rest : List Char) :
    occurrencesIn (o :: os) (a ++ rest) = occurrencesIn (o :: os) rest := by
  induction a with
  | nil => rfl
  | cons c a ih =>
    obtain ⟨hc, ha⟩ := not_or.mp (List.mem_cons.not.mp h)
    rw [List.cons_append, occurrencesIn_cons, ih ha]
    exact fun hlead => hc (List.cons_prefix_cons.mp hlead).1

example : occurrences "aa" "aaab" = 2 := by decide

end CodeAudit.Text
