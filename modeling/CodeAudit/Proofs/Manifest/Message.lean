import CodeAudit.Manifest.Provider
import CodeAudit.Proofs.Text.Digits
import CodeAudit.Proofs.Text.Pieces
import Mathlib.Data.List.Infix

/-!
Messages of declared rules. A template is a row of characters and slots, and what it should say
about a node is found in one pass over that row. A message is made by three replacements one after
the other, and the later ones also go over the text that the name has brought in. So the two agree
exactly where the name completes no further slot.
-/

namespace CodeAudit

open Text

namespace Template

/-- What a template has a place for. -/
inductive Slot where
  | name
  | kind
  | lines
deriving DecidableEq, Repr

namespace Slot

def text : Slot → String
  | name => "\x7bname\x7d"
  | kind => "\x7bkind\x7d"
  | lines => "\x7blines\x7d"

def chars (s : Slot) : List Char := s.text.toList

theorem exists_chars_eq (s : Slot) : ∃ body, s.chars = '{' :: body ∧ '{' ∉ body := by
  cases s with
  | name => exact ⟨"name\x7d".toList, by decide, by decide⟩
  | kind => exact ⟨"kind\x7d".toList, by decide, by decide⟩
  | lines => exact ⟨"lines\x7d".toList, by decide, by decide⟩

theorem eq_of_lead {s s' : Slot} {rest : List Char} (h : s.chars <+: s'.chars ++ rest) :
    s = s' := by
  cases s <;> cases s' <;> first | rfl | simp [chars, text] at h

end Slot

inductive Piece where
  | char (c : Char)
  | slot (s : Slot)
deriving DecidableEq, Repr

/-- The slot that some characters start with, and what follows it. -/
def slotAt? (cs : List Char) : Option (Slot × List Char) :=
  [Slot.name, .kind, .lines].findSome? fun s => (dropLead? s.chars cs).map fun rest => (s, rest)

theorem slotAt?_eq_some_iff {cs rest : List Char} {s : Slot} :
    slotAt? cs = some (s, rest) ↔ cs = s.chars ++ rest := by
  constructor
  · intro h
    obtain ⟨s', -, h⟩ := List.exists_of_findSome?_eq_some h
    obtain ⟨rest', hlead, heq⟩ := Option.map_eq_some_iff.mp h
    obtain ⟨rfl, rfl⟩ := Prod.mk.inj heq
    exact dropLead?_eq_some_iff.mp hlead
  · rintro rfl
    cases s <;> simp [slotAt?, Slot.chars, Slot.text, dropLead?]

theorem slotAt?_eq_none_iff {cs : List Char} :
    slotAt? cs = none ↔ ∀ s : Slot, ¬ s.chars <+: cs := by
  rw [Option.eq_none_iff_forall_ne_some]
  constructor
  · rintro h s ⟨rest, rfl⟩
    exact h (s, rest) (slotAt?_eq_some_iff.mpr rfl)
  · rintro h ⟨s, rest⟩ hslot
    exact h s ⟨rest, (slotAt?_eq_some_iff.mp hslot).symm⟩

/-- The characters and slots of a template, from the left. -/
def pieces (cs : List Char) : List Piece :=
  match cs with
  | [] => []
  | c :: rest =>
    match _h : slotAt? (c :: rest) with
    | some (s, after) => .slot s :: pieces after
    | none => .char c :: pieces rest
termination_by cs.length
decreasing_by
  · obtain ⟨body, hbody, -⟩ := s.exists_chars_eq
    rw [slotAt?_eq_some_iff.mp _h, hbody]
    simp only [List.length_append, List.length_cons]
    omega
  · simp

/-- A row of pieces, with a text in the place of each slot. -/
def written (value : Slot → List Char) (ps : List Piece) : List Char :=
  ps.flatMap fun
    | .char c => [c]
    | .slot s => value s

section

variable (value : Slot → List Char) (ps : List Piece)

@[simp] theorem written_nil : written value [] = [] := rfl

@[simp] theorem written_char (c : Char) :
    written value (.char c :: ps) = c :: written value ps := rfl

@[simp] theorem written_slot (s : Slot) :
    written value (.slot s :: ps) = value s ++ written value ps := rfl

@[simp] theorem pieces_nil : pieces [] = [] := by
  rw [pieces]

theorem pieces_slot (s : Slot) (rest : List Char) :
    pieces (s.chars ++ rest) = .slot s :: pieces rest := by
  have hslot : slotAt? (s.chars ++ rest) = some (s, rest) := slotAt?_eq_some_iff.mpr rfl
  obtain ⟨body, hbody, -⟩ := s.exists_chars_eq
  rw [hbody, List.cons_append] at hslot ⊢
  rw [pieces]
  split
  next s' after hafter =>
    obtain ⟨rfl, rfl⟩ := Prod.mk.inj (Option.some.inj (hslot.symm.trans hafter))
    rfl
  next hnone => cases hslot.symm.trans hnone

theorem pieces_char {c : Char} {rest : List Char} (h : slotAt? (c :: rest) = none) :
    pieces (c :: rest) = .char c :: pieces rest := by
  rw [pieces]
  split
  next hsome => cases h.symm.trans hsome
  next => rfl

theorem slotsInduction {motive : List Char → Prop} (nil : motive [])
    (slot : ∀ s rest, motive rest → motive (Slot.chars s ++ rest))
    (char : ∀ c rest, slotAt? (c :: rest) = none → motive rest → motive (c :: rest))
    (cs : List Char) : motive cs := by
  fun_induction pieces cs with
  | case1 => exact nil
  | case2 c rest s after h ih => exact slotAt?_eq_some_iff.mp h ▸ slot s after ih
  | case3 c rest h ih => exact char c rest h ih

end

/-! ### One replacement -/

/-- A text in the place of one slot, the others left as they are. -/
abbrev only (s : Slot) (new : List Char) : Slot → List Char := Function.update Slot.chars s new

theorem replaceList_slot_append (s s' : Slot) (new rest : List Char) :
    replaceList s.chars new (s'.chars ++ rest) = only s new s' ++ replaceList s.chars new rest := by
  obtain ⟨body, hbody, -⟩ := s.exists_chars_eq
  rw [only, Function.update_apply]
  split
  next h =>
    rw [h, hbody]
    exact replaceList_append_self rest
  next hne =>
    obtain ⟨body', hbody', hbrace⟩ := s'.exists_chars_eq
    have hlead : ¬ s.chars <+: s'.chars ++ rest := fun hlead => hne (Slot.eq_of_lead hlead).symm
    rw [hbody, hbody', List.cons_append] at hlead ⊢
    rw [replaceList_cons hlead, replaceList_append_of_not_mem hbrace]
    rfl

theorem replaceList_char_cons {c : Char} {rest : List Char} (s : Slot) (new : List Char)
    (h : ¬ s.chars <+: c :: rest) :
    replaceList s.chars new (c :: rest) = c :: replaceList s.chars new rest := by
  obtain ⟨body, hbody, -⟩ := s.exists_chars_eq
  rw [hbody] at h ⊢
  exact replaceList_cons h

theorem replaceList_slot (s : Slot) (new cs : List Char) :
    replaceList s.chars new cs = written (only s new) (pieces cs) := by
  induction cs using slotsInduction with
  | nil => simp
  | slot s' rest ih => rw [replaceList_slot_append, ih, pieces_slot, written_slot]
  | char c rest h ih =>
    rw [replaceList_char_cons s new (slotAt?_eq_none_iff.mp h s), ih, pieces_char h, written_char]

/-! ### Two replacements -/

/-- What follows the brace of the slot for lines. -/
def linesBody : List Char := "lines\x7d".toList

/-- No end of that slot could stand in front of a kind's name, and no kind's name in front of it. -/
theorem kind_apart_from_lines (k : NodeKind) {w : List Char} (hw : w ∈ linesBody.tails)
    (hne : w ≠ []) : ¬ w <+: k.text.toList ∧ ¬ k.text.toList <+: w := by
  revert w
  cases k <;> decide

theorem prefix_of_prefix_kind (k : NodeKind) {w cs : List Char} (hw : w <:+ linesBody)
    (h : w <+: written (only .kind k.text.toList) (pieces cs)) : w <+: cs := by
  induction cs using slotsInduction generalizing w with
  | nil => simpa using h
  | slot s rest ih =>
    match w with
    | [] => exact List.nil_prefix
    | c :: w =>
      rw [pieces_slot, written_slot] at h
      by_cases hs : s = .kind
      · -- One of the two is in front of the other.
        subst hs
        have hkind : k.text.toList <+:
            k.text.toList ++ written (only .kind k.text.toList) (pieces rest) :=
          List.prefix_append _ _
        rw [only, Function.update_self] at h
        obtain ⟨h₁, h₂⟩ :=
          kind_apart_from_lines k ((List.mem_tails _ _).mpr hw) (List.cons_ne_nil c w)
        exact ((List.prefix_or_prefix_of_prefix h hkind).elim h₁ h₂).elim
      · -- The slot begins with a brace.
        obtain ⟨body, hbody, -⟩ := s.exists_chars_eq
        rw [only, Function.update_of_ne hs, hbody] at h
        obtain rfl : c = '{' := (List.cons_prefix_cons.mp h).1
        exact absurd (hw.subset List.mem_cons_self) (by decide)
  | char c rest hslot ih =>
    match w with
    | [] => exact List.nil_prefix
    | d :: w =>
      rw [pieces_char hslot, written_char, List.cons_prefix_cons] at h
      exact List.cons_prefix_cons.mpr ⟨h.1, ih ((List.suffix_cons d w).trans hw) h.2⟩

/-- What the slots stand for in a message about a node. -/
def valueFor (n : Node) : Slot → List Char
  | .name => n.shownName.toList
  | .kind => n.kind.text.toList
  | .lines => (toString n.span.lineCount).toList

/-- The kind and the lines filled in, the name left as it is. -/
abbrev unnamed (n : Node) : Slot → List Char := Function.update (valueFor n) .name Slot.name.chars

theorem replaceList_kind_lines (n : Node) (cs : List Char) :
    replaceList Slot.lines.chars (toString n.span.lineCount).toList
        (replaceList Slot.kind.chars n.kind.text.toList cs) =
      written (unnamed n) (pieces cs) := by
  rw [replaceList_slot .kind]
  induction cs using slotsInduction with
  | nil => simp
  | slot s rest ih =>
    rw [pieces_slot, written_slot, written_slot, ← ih]
    cases s with
    | name => exact replaceList_slot_append .lines .name _ _
    | kind => exact replaceList_append_of_not_mem (by cases n.kind <;> decide) _
    | lines => exact replaceList_slot_append .lines .lines _ _
  | char c rest hslot ih =>
    rw [pieces_char hslot, written_char, written_char, ← ih]
    apply replaceList_char_cons
    intro hlead
    obtain ⟨hc, hbody⟩ := List.cons_prefix_cons.mp hlead
    refine slotAt?_eq_none_iff.mp hslot .lines (List.cons_prefix_cons.mpr ⟨hc, ?_⟩)
    exact prefix_of_prefix_kind n.kind List.suffix_rfl hbody

/-! ### Slots that are completed on the way -/

theorem occurrencesIn_slot_append (s s' : Slot) (rest : List Char) :
    occurrencesIn s.chars (s'.chars ++ rest) =
      (if s' = s then 1 else 0) + occurrencesIn s.chars rest := by
  obtain ⟨body, hbody, -⟩ := s.exists_chars_eq
  obtain ⟨body', hbody', hbrace⟩ := s'.exists_chars_eq
  have hrest : occurrencesIn s.chars (body' ++ rest) = occurrencesIn s.chars rest := by
    rw [hbody]
    exact occurrencesIn_append_of_not_mem hbrace rest
  split
  next h =>
    have hlead : s.chars <+: '{' :: (body' ++ rest) := by
      rw [← h, ← List.cons_append, ← hbody']
      exact List.prefix_append _ _
    rw [hbody', List.cons_append, occurrencesIn_cons_of_lead hlead, hrest]
  next hne =>
    have hlead : ¬ s.chars <+: '{' :: (body' ++ rest) := by
      rw [← List.cons_append, ← hbody']
      exact fun hlead => hne (Slot.eq_of_lead hlead).symm
    rw [hbody', List.cons_append, occurrencesIn_cons hlead, hrest, Nat.zero_add]

theorem occurrencesIn_eq_count (s : Slot) (cs : List Char) :
    occurrencesIn s.chars cs = (pieces cs).count (.slot s) := by
  induction cs using slotsInduction with
  | nil =>
    rw [pieces_nil]
    cases s <;> rfl
  | slot s' rest ih =>
    rw [occurrencesIn_slot_append, pieces_slot, List.count_cons, ih, Nat.add_comm]
    simp
  | char c rest h ih =>
    rw [occurrencesIn_cons (slotAt?_eq_none_iff.mp h s), pieces_char h, List.count_cons, ih]
    simp

theorem count_le_occurrencesIn (s : Slot) (ps : List Piece) :
    ps.count (.slot s) ≤ occurrencesIn s.chars (written Slot.chars ps) := by
  induction ps with
  | nil => simp
  | cons p ps ih =>
    rw [List.count_cons]
    cases p with
    | slot s' =>
      rw [written_slot, occurrencesIn_slot_append]
      simp only [beq_iff_eq, Piece.slot.injEq]
      omega
    | char c =>
      rw [written_char, occurrencesIn]
      simp only [beq_iff_eq, reduceCtorEq, if_false]
      omega

theorem occurrencesIn_written (s : Slot) {ps : List Piece} (h : .char '{' ∉ ps) :
    occurrencesIn s.chars (written Slot.chars ps) = ps.count (.slot s) := by
  induction ps with
  | nil => cases s <;> rfl
  | cons p ps ih =>
    obtain ⟨hp, hps⟩ := not_or.mp (List.mem_cons.not.mp h)
    rw [List.count_cons, ← ih hps]
    cases p with
    | slot s' =>
      rw [written_slot, occurrencesIn_slot_append, Nat.add_comm]
      simp
    | char c =>
      obtain ⟨body, hbody, -⟩ := s.exists_chars_eq
      have hlead : ¬ s.chars <+: c :: written Slot.chars ps := by
        rw [hbody, List.cons_prefix_cons]
        rintro ⟨rfl, -⟩
        exact hp rfl
      rw [written_char, occurrencesIn_cons hlead]
      simp

theorem pieces_append_of_not_mem {a : List Char} (h : '{' ∉ a) (rest : List Char) :
    pieces (a ++ rest) = a.map Piece.char ++ pieces rest := by
  induction a with
  | nil => rfl
  | cons c a ih =>
    obtain ⟨hc, ha⟩ := not_or.mp (List.mem_cons.not.mp h)
    have hslot : slotAt? (c :: (a ++ rest)) = none := by
      rw [slotAt?_eq_none_iff]
      intro s hlead
      obtain ⟨body, hbody, -⟩ := s.exists_chars_eq
      exact hc (List.cons_prefix_cons.mp (hbody ▸ hlead)).1
    rw [List.cons_append, pieces_char hslot, ih ha]
    rfl

theorem written_map_char (value : Slot → List Char) (cs : List Char) (ps : List Piece) :
    written value (cs.map Piece.char ++ ps) = cs ++ written value ps := by
  induction cs with
  | nil => rfl
  | cons c cs ih => rw [List.map_cons, List.cons_append, written_char, ih, List.cons_append]

variable {value : Slot → List Char}

theorem written_pieces_cons {c : Char} {rest : List Char}
    (h : ∀ s, Slot.chars s <+: c :: rest → value s = s.chars) :
    written value (pieces (c :: rest)) = c :: written value (pieces rest) := by
  cases hslot : slotAt? (c :: rest) with
  | none => rw [pieces_char hslot, written_char]
  | some found =>
    obtain ⟨s, after⟩ := found
    have hsplit := slotAt?_eq_some_iff.mp hslot
    obtain ⟨body, hbody, hbrace⟩ := s.exists_chars_eq
    have hkept := h s (hsplit ▸ List.prefix_append _ _)
    rw [hsplit, pieces_slot, written_slot, hkept]
    rw [hbody, List.cons_append] at hsplit ⊢
    obtain ⟨rfl, rfl⟩ := List.cons.inj hsplit
    rw [pieces_append_of_not_mem hbrace, written_map_char]

/-- Where the name's slot is left as it is, reading a row of pieces back from its text and filling
the slots gives the row with its own slots filled exactly if the text has no further place for one
of the others. -/
theorem written_pieces_eq_iff (hname : value .name = Slot.name.chars)
    (hvalue : ∀ s, s ≠ .name → ∃ c text, value s = c :: text ∧ c ≠ '{') (ps : List Piece) :
    written value (pieces (written Slot.chars ps)) = written value ps ↔
      ∀ s, s ≠ Slot.name → occurrencesIn s.chars (written Slot.chars ps) = ps.count (.slot s) := by
  induction ps with
  | nil =>
    simp only [written_nil, pieces_nil, true_iff]
    intro s _
    cases s <;> rfl
  | cons p ps ih =>
    cases p with
    | slot s' =>
      rw [written_slot, pieces_slot, written_slot, written_slot, List.append_cancel_left_eq, ih]
      refine forall₂_congr fun s _ => ?_
      rw [occurrencesIn_slot_append, List.count_cons]
      simp only [beq_iff_eq, Piece.slot.injEq]
      omega
    | char c =>
      rw [written_char, written_char]
      by_cases h : ∀ s, Slot.chars s <+: c :: written Slot.chars ps → s = .name
      · rw [written_pieces_cons fun s hs => h s hs ▸ hname, List.cons.injEq, eq_self, true_and, ih]
        refine forall₂_congr fun s hs => ?_
        rw [occurrencesIn_cons (mt (h s) hs), List.count_cons]
        simp
      · -- A slot that is filled begins here and is none of the row: the two differ in the first
        -- character already, and the slot has one place too many.
        obtain ⟨s, ⟨rest, hrest⟩, hs⟩ : ∃ s, Slot.chars s <+: c :: written Slot.chars ps ∧
            s ≠ .name := by simpa using h
        obtain ⟨d, text, htext, hd⟩ := hvalue s hs
        obtain ⟨body, hbody, -⟩ := s.exists_chars_eq
        obtain ⟨rfl, -⟩ := List.cons.inj (hbody ▸ hrest)
        refine iff_of_false ?_ fun hcount => ?_
        · rw [← hrest, pieces_slot, written_slot, htext]
          exact fun heq => hd (List.cons.inj heq).1
        · have hplace := hcount s hs
          rw [occurrencesIn_cons_of_lead ⟨rest, hrest⟩, List.count_cons] at hplace
          have hleast := count_le_occurrencesIn s ps
          simp only [beq_iff_eq, reduceCtorEq, if_false] at hplace
          omega

/-! ### The name -/

/-- A row of pieces with the characters of a name in the place of its slot. -/
def withName (name : List Char) (ps : List Piece) : List Piece :=
  ps.flatMap fun
    | .slot .name => name.map .char
    | p => [p]

theorem written_withName (value : Slot → List Char) (name : List Char) (ps : List Piece) :
    written value (withName name ps) = written (Function.update value .name name) ps := by
  induction ps with
  | nil => rfl
  | cons p ps ih =>
    have hcons : withName name (p :: ps) = withName name [p] ++ withName name ps := by
      simp [withName]
    rw [hcons]
    match p with
    | .slot .name =>
      rw [written_slot, Function.update_self, ← ih, ← written_map_char]
      simp [withName]
    | .slot .kind | .slot .lines | .char c => simp [withName, ← ih]

theorem count_withName {s : Slot} (hs : s ≠ .name) (name : List Char) (ps : List Piece) :
    (withName name ps).count (.slot s) = ps.count (.slot s) := by
  have hname : (name.map Piece.char).count (.slot s) = 0 := List.count_eq_zero.mpr (by simp)
  induction ps with
  | nil => rfl
  | cons p ps ih =>
    unfold withName at ih ⊢
    rw [List.flatMap_cons, List.count_append, ih, List.count_cons, Nat.add_comm]
    match p with
    | .slot .name => simp [hname, hs.symm]
    | .slot .kind | .slot .lines | .char c => simp [List.count_singleton]

/-- The message as the template has it: the node's data in each slot and all else unchanged. -/
def filled (template : String) (n : Node) : String :=
  String.ofList (written (valueFor n) (pieces template.toList))

/-- The template with nothing but the name filled in. -/
def named (template : String) (n : Node) : String :=
  String.ofList (written (only .name n.shownName.toList) (pieces template.toList))

/-- The name completes no slot for the kind or the lines that the template does not have. -/
def Undisturbed (template : String) (n : Node) : Prop :=
  ∀ s ∈ [Slot.kind, .lines],
    occurrences s.text (named template n) = occurrences s.text template

instance (template : String) (n : Node) : Decidable (Undisturbed template n) :=
  inferInstanceAs (Decidable (∀ s ∈ [Slot.kind, .lines], _))

theorem exists_valueFor_eq (n : Node) {s : Slot} (hs : s ≠ .name) :
    ∃ c text, valueFor n s = c :: text ∧ c ≠ '{' := by
  cases s with
  | name => exact absurd rfl hs
  | kind =>
    change ∃ c text, n.kind.text.toList = c :: text ∧ c ≠ '{'
    cases n.kind <;> exact ⟨_, _, rfl, by decide⟩
  | lines =>
    obtain ⟨c, text, htext⟩ :=
      List.exists_cons_of_ne_nil (l := (toString n.span.lineCount).toList) (by simp)
    have hc : c.isDigit = true := isDigit_of_mem_toString (htext ▸ List.mem_cons_self)
    refine ⟨c, text, htext, ?_⟩
    rintro rfl
    exact absurd hc (by decide)

theorem toList_named (template : String) (n : Node) :
    (named template n).toList =
      written Slot.chars (withName n.shownName.toList (pieces template.toList)) := by
  rw [named, String.toList_ofList, written_withName]

theorem toList_fill (template : String) (n : Node) :
    (DeclaredRule.fill template n).toList =
      written (unnamed n) (pieces (named template n).toList) := by
  rw [named, String.toList_ofList, ← replaceList_slot, ← replaceList_kind_lines]
  simp only [DeclaredRule.fill, replaceAll, String.toList_ofList]
  rfl

/-- In the row with the name's characters, only its own slots may be slots. -/
theorem undisturbed_iff {template : String} {n : Node} :
    Undisturbed template n ↔ ∀ s, s ≠ Slot.name →
      occurrencesIn s.chars (named template n).toList =
        (withName n.shownName.toList (pieces template.toList)).count (.slot s) := by
  have hslots (s : Slot) : s ∈ [Slot.kind, .lines] ↔ s ≠ .name := by cases s <;> decide
  refine forall_congr' fun s => ?_
  rw [hslots]
  refine forall_congr' fun hs => ?_
  rw [count_withName hs, ← occurrencesIn_eq_count]
  rfl

/-- A message says what its template has exactly if the name completes no slot. -/
theorem fill_eq_filled_iff (template : String) (n : Node) :
    DeclaredRule.fill template n = filled template n ↔ Undisturbed template n := by
  have hnamed := toList_named template n
  set ps := withName n.shownName.toList (pieces template.toList) with hps
  have hvalue : Function.update (valueFor n) .name n.shownName.toList = valueFor n :=
    Function.update_eq_self _ _
  have hfilled : (filled template n).toList = written (unnamed n) ps := by
    rw [filled, String.toList_ofList, hps, written_withName, Function.update_idem, hvalue]
  rw [← String.toList_inj, toList_fill, hfilled, undisturbed_iff, hnamed]
  exact written_pieces_eq_iff (Function.update_self _ _ _)
    (fun s hs => Function.update_of_ne hs _ _ ▸ exists_valueFor_eq n hs) ps

/-- Where each brace of the template opens a slot and the name has none, no slot is completed. -/
theorem undisturbed_of_no_brace {template : String} {n : Node}
    (htemplate : .char '{' ∉ pieces template.toList) (hname : '{' ∉ n.shownName.toList) :
    Undisturbed template n := by
  rw [undisturbed_iff, toList_named]
  intro s _
  refine occurrencesIn_written s fun hmem => ?_
  obtain ⟨p, hp, hchar⟩ := List.mem_flatMap.mp hmem
  match p with
  | .slot .name => exact hname (by simpa using hchar)
  | .slot .kind | .slot .lines => simp at hchar
  | .char c => exact htemplate (List.mem_singleton.mp hchar ▸ hp)

end Template

namespace DeclaredRule

/-- A declared rule reports the nodes it is meant for in the order of the walk. What it says about
one is what the template has, with the node's data in the slots and all else unchanged, exactly if
the name completes no slot; so it is where each brace opens a slot and the name has none. -/
theorem message_verbatim_iff (r : DeclaredRule) (ctx : RuleContext) :
    ∃ findings, r.rule.visit ctx = .ok findings ∧
      List.Forall₂ (fun id (f : Finding) =>
          ∃ n, ctx.tree.node? id = some n ∧ f = ctx.finding id f.message ∧
            (f.message = Template.filled r.message n ↔ Template.Undisturbed r.message n) ∧
            (.char '{' ∉ Template.pieces r.message.toList → '{' ∉ n.shownName.toList →
              f.message = Template.filled r.message n))
        (ctx.tree.walk.filter fun id => (ctx.tree.node? id).any r.reports) findings := by
  refine ⟨_, rfl, ?_⟩
  unfold RuleContext.report
  induction ctx.tree.walk with
  | nil => exact .nil
  | cons id rest ih =>
    cases hnode : ctx.tree.node? id with
    | none => simpa [hnode] using ih
    | some n =>
      cases hreports : r.reports n with
      | false => simpa [hnode, hreports] using ih
      | true =>
        have hverbatim := Template.fill_eq_filled_iff r.message n
        rw [List.filter_cons_of_pos (by simp [hnode, hreports])]
        simp only [List.filterMap_cons, hnode, Option.bind_some, hreports, if_true, Option.map_some]
        refine .cons ⟨n, hnode, rfl, hverbatim, fun htemplate hname => ?_⟩ ih
        exact hverbatim.mpr (Template.undisturbed_of_no_brace htemplate hname)

/-- A class whose name is written like the slot for the kind. -/
def bracedClass : Node where
  kind := .classType
  givenName := some "\x7bkind\x7d"
  parent := some Tree.rootId

def nameClasses : DeclaredRule where
  message := "\x7bname\x7d"
  target := { kind := some .classType }

def bracedContext : RuleContext where
  tree := { path := ⟨"A.kt"⟩, nodes := #[{ kind := .file, children := [1] }, bracedClass] }
  descriptor := { ruleSetId := "legacy", ruleId := "Named", baseId := "Named" }
  config := .empty

/-- The template asks for the name alone, and the message has the kind. -/
theorem braced_name_expanded :
    ∃ f, nameClasses.rule.visit bracedContext = .ok [f] ∧ f.message = "class" ∧
      Template.filled nameClasses.message bracedClass = "\x7bkind\x7d" ∧
      f.message ≠ Template.filled nameClasses.message bracedClass := by
  obtain ⟨findings, hvisit, hall⟩ := message_verbatim_iff nameClasses bracedContext
  have hreported : (bracedContext.tree.walk.filter fun id =>
      (bracedContext.tree.node? id).any nameClasses.reports) = [1] := by decide
  rw [hreported] at hall
  rcases hall with _ | ⟨⟨n, hnode, -, hverbatim, -⟩, _ | _⟩
  obtain rfl : bracedClass = n := Option.some.inj hnode
  have hdisturbed : ¬ Template.Undisturbed nameClasses.message bracedClass := by decide +kernel
  refine ⟨_, hvisit, ?_, by decide +kernel, mt hverbatim.mp hdisturbed⟩
  have hmessages : ((nameClasses.rule.visit bracedContext).toOption.getD []).map (·.message) =
      ["class"] := by decide +kernel
  rw [hvisit] at hmessages
  exact (List.cons.inj hmessages).1

end DeclaredRule

end CodeAudit
