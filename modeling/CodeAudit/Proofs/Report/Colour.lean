import CodeAudit.Proofs.Ordered.Table
import CodeAudit.Proofs.Text.Digits
import CodeAudit.Proofs.Text.Pieces
import CodeAudit.Report.Text
import Mathlib.Data.List.Forall2

namespace CodeAudit

/-- A text without the character that begins an escape sequence. -/
def EscapeFree (s : String) : Prop := '\x1b' ∉ s.toList

namespace EscapeFree

instance (s : String) : Decidable (EscapeFree s) := inferInstanceAs (Decidable (_ ∉ s.toList))

theorem append {s t : String} (hs : EscapeFree s) (ht : EscapeFree t) : EscapeFree (s ++ t) := by
  unfold EscapeFree at *
  rw [String.toList_append, List.mem_append]
  exact fun h => h.elim hs ht

theorem nat (n : Nat) : EscapeFree (toString n) :=
  fun h => absurd (isDigit_of_mem_toString h) (by decide)

theorem int (i : Int) : EscapeFree (toString i) :=
  fun h => absurd (isDigit_of_mem_toString_int h) (by decide)

theorem blanks (n : Nat) : EscapeFree (String.ofList (List.replicate n ' ')) := by
  intro h
  rw [String.toList_ofList] at h
  exact absurd (List.eq_of_mem_replicate h) (by decide)

theorem join {l : List String} (h : ∀ s ∈ l, EscapeFree s) : EscapeFree (String.join l) := by
  induction l with
  | nil => decide
  | cons s l ih =>
    rw [String.join_cons]
    exact (h s List.mem_cons_self).append (ih fun t ht => h t (List.mem_cons_of_mem s ht))

end EscapeFree

namespace Style

/-! ### Deleting escape sequences -/

/-- What follows an escape sequence, which goes up to its first `m`. -/
def afterEscape? : List Char → Option (List Char)
  | '\x1b' :: '[' :: cs => (Text.cutAt? (· == 'm') cs).map (·.2)
  | _ => none

theorem afterEscape?_escape {codes : List Char} (h : 'm' ∉ codes) (rest : List Char) :
    afterEscape? ('\x1b' :: '[' :: (codes ++ 'm' :: rest)) = some rest := by
  rw [afterEscape?, Text.cutAt?_eq_some_iff.mpr ⟨rfl, h⟩]
  rfl

theorem exists_of_afterEscape? {cs rest : List Char} (h : afterEscape? cs = some rest) :
    ∃ codes, cs = '\x1b' :: '[' :: (codes ++ 'm' :: rest) := by
  unfold afterEscape? at h
  split at h
  next cs =>
    obtain ⟨⟨codes, _⟩, hcut, rfl⟩ := Option.map_eq_some_iff.mp h
    exact ⟨codes, by rw [(Text.cutAt?_eq_some_iff.mp hcut).1]⟩
  next => cases h

/-- The characters that are in no escape sequence. -/
def shown (cs : List Char) : List Char :=
  match cs with
  | [] => []
  | c :: rest =>
    match _h : afterEscape? (c :: rest) with
    | some after => shown after
    | none => c :: shown rest
termination_by cs.length
decreasing_by
  · obtain ⟨codes, hcodes⟩ := exists_of_afterEscape? _h
    rw [hcodes]
    simp only [List.length_cons, List.length_append]
    omega
  · simp

def withoutEscapes (s : String) : String := String.ofList (shown s.toList)

theorem shown_cons {c : Char} (h : c ≠ '\x1b') (rest : List Char) :
    shown (c :: rest) = c :: shown rest := by
  rw [shown]
  split
  next after hafter =>
    obtain ⟨codes, hcodes⟩ := exists_of_afterEscape? hafter
    exact absurd (List.cons.inj hcodes).1 h
  next => rfl

theorem shown_append {cs : List Char} (h : '\x1b' ∉ cs) (rest : List Char) :
    shown (cs ++ rest) = cs ++ shown rest := by
  induction cs with
  | nil => rfl
  | cons c cs ih =>
    obtain ⟨hc, hcs⟩ := not_or.mp (List.mem_cons.not.mp h)
    rw [List.cons_append, shown_cons (Ne.symm hc), ih hcs, List.cons_append]

theorem shown_escape {codes : List Char} (h : 'm' ∉ codes) (rest : List Char) :
    shown ('\x1b' :: '[' :: (codes ++ 'm' :: rest)) = shown rest := by
  have hescape := afterEscape?_escape h rest
  rw [shown]
  split
  next after hafter => rw [Option.some.inj (hescape.symm.trans hafter)]
  next hnone => cases hescape.symm.trans hnone

/-! ### Texts that show as others -/

/-- Without its escape sequences the first text is the second, whatever follows. -/
def ShowsAs (s t : String) : Prop :=
  ∀ rest, shown (s.toList ++ rest) = t.toList ++ shown rest

namespace ShowsAs

theorem withoutEscapes_eq {s t : String} (h : ShowsAs s t) : withoutEscapes s = t := by
  have hs := h []
  rw [List.append_nil, shown, List.append_nil] at hs
  rw [withoutEscapes, hs, String.ofList_toList]

theorem refl {s : String} (h : EscapeFree s) : ShowsAs s s := shown_append h

theorem append {s s' t t' : String} (hs : ShowsAs s s') (ht : ShowsAs t t') :
    ShowsAs (s ++ t) (s' ++ t') := by
  intro rest
  rw [String.toList_append, String.toList_append, List.append_assoc, List.append_assoc, hs, ht]

theorem join {l l' : List String} (h : List.Forall₂ ShowsAs l l') :
    ShowsAs (String.join l) (String.join l') := by
  induction h with
  | nil => exact refl (by decide)
  | cons hs _ ih =>
    rw [String.join_cons, String.join_cons]
    exact hs.append ih

theorem join_map {α : Type} {f g : α → String} {l : List α} (h : ∀ a ∈ l, ShowsAs (f a) (g a)) :
    ShowsAs (String.join (l.map f)) (String.join (l.map g)) := by
  apply join
  rw [List.forall₂_map_left_iff, List.forall₂_map_right_iff, List.forall₂_same]
  exact h

theorem intercalate {sep : String} (hsep : EscapeFree sep) {l l' : List String}
    (h : List.Forall₂ ShowsAs l l') : ShowsAs (sep.intercalate l) (sep.intercalate l') := by
  induction h with
  | nil =>
    rw [String.intercalate_nil]
    exact refl (by decide)
  | cons hs hrest ih =>
    cases hrest with
    | nil => rwa [String.intercalate_singleton, String.intercalate_singleton]
    | cons _ _ =>
      rw [String.intercalate_cons_cons, String.intercalate_cons_cons]
      exact (hs.append (refl hsep)).append ih

theorem escape {codes : String} (h : 'm' ∉ codes.toList) : ShowsAs (escape codes) "" := by
  intro rest
  have htext : (Style.escape codes).toList ++ rest =
      '\x1b' :: '[' :: (codes.toList ++ 'm' :: rest) := by
    simp [Style.escape]
  rw [htext, shown_escape h]
  rfl

end ShowsAs

theorem apply_eq (s : Style) {text : String} (h : EscapeFree text) :
    s.apply text = escape s.codes ++ text ++ reset := by
  have hreset : reset.toList = '\x1b' :: "[0m".toList := by decide
  have hkept : Text.replaceList reset.toList (reset ++ escape s.codes).toList text.toList =
      text.toList := by
    rw [hreset, ← List.append_nil text.toList, Text.replaceList_append_of_not_mem h,
      Text.replaceList_nil]
  rw [apply, Text.replaceAll, hkept, String.ofList_toList]

theorem showsAs_apply (s : Style) {text : String} (h : EscapeFree text) :
    ShowsAs (s.apply text) text := by
  have hon : ShowsAs (escape s.codes) "" := .escape (by cases s <;> decide)
  have hoff : ShowsAs reset "" := .escape (by decide)
  have hall := (hon.append (.refl h)).append hoff
  rwa [← apply_eq s h, String.empty_append, String.append_empty] at hall

end Style

def AnalysisResult.printed (r : AnalysisResult) : List String :=
  r.findings.flatMap (fun f => [f.location.path.text, f.message, f.ruleSetId, f.ruleId]) ++
    r.notifications.map (·.message) ++ r.metrics.map (·.1)

namespace TextReport

open Style

variable (report : TextReport)

/-! ### The parts of a report -/

theorem showsAs_paint (s : Style) {text : String} (h : EscapeFree text) :
    ShowsAs ({ report with colored := true }.paint s text)
      ({ report with colored := false }.paint s text) :=
  showsAs_apply s h

theorem escapeFree_countText (n : Nat) {one many : String} (hone : EscapeFree one)
    (hmany : EscapeFree many) : EscapeFree (countText n one many) := by
  refine ((EscapeFree.nat n).append (by decide)).append ?_
  split
  · exact hone
  · exact hmany

theorem showsAs_findingLine {f : Finding} (hmessage : EscapeFree f.message)
    (hset : EscapeFree f.ruleSetId) (hrule : EscapeFree f.ruleId) :
    ShowsAs ({ report with colored := true }.findingLine f)
      ({ report with colored := false }.findingLine f) := by
  have hgap : ShowsAs "  " "  " := .refl (by decide)
  have hplace : EscapeFree
      ("  " ++ toString f.location.line ++ ":" ++ toString f.location.column ++ "  ") :=
    ((((show EscapeFree "  " by decide).append (.nat _)).append (by decide)).append (.nat _)).append
      (by decide)
  have hseverity : EscapeFree f.severity.text := by cases f.severity <;> decide
  have hid : EscapeFree ("[" ++ f.ruleSetId ++ ":" ++ f.ruleId ++ "]") :=
    ((((show EscapeFree "[" by decide).append hset).append (by decide)).append hrule).append
      (by decide)
  exact ((((((ShowsAs.refl hplace).append (showsAs_paint report _ hseverity)).append hgap).append
    (.refl hmessage)).append hgap).append (showsAs_paint report .dimmed hid)).append
      (.refl (by decide))

theorem showsAs_fileBlock {group : Path × List Finding} (hpath : EscapeFree group.1.text)
    (h : ∀ f ∈ group.2, EscapeFree f.message ∧ EscapeFree f.ruleSetId ∧ EscapeFree f.ruleId) :
    ShowsAs ({ report with colored := true }.fileBlock group)
      ({ report with colored := false }.fileBlock group) := by
  have hbreak : ShowsAs "\n" "\n" := .refl (by decide)
  have hlines := ShowsAs.join_map fun f hf =>
    showsAs_findingLine report (h f hf).1 (h f hf).2.1 (h f hf).2.2
  exact (((showsAs_paint report .underlined hpath).append hbreak).append hlines).append hbreak

theorem showsAs_notificationLine {n : Notification} (h : EscapeFree n.message) :
    ShowsAs ({ report with colored := true }.notificationLine n)
      ({ report with colored := false }.notificationLine n) := by
  have hlevel : EscapeFree n.level.text := by cases n.level <;> decide
  exact (((showsAs_paint report _ hlevel).append (.refl (by decide))).append (.refl h)).append
    (.refl (by decide))

theorem escapeFree_metricsBlock {metrics : Metrics} (h : ∀ m ∈ metrics, EscapeFree m.1) :
    EscapeFree (metricsBlock metrics) := by
  unfold metricsBlock
  split
  · decide
  · refine (show EscapeFree "\nMetrics:\n" by decide).append (.join fun line hline => ?_)
    obtain ⟨m, hm, rfl⟩ := List.mem_map.mp hline
    have hname : EscapeFree (Text.padRight 20 m.1) := (h m hm).append (.blanks _)
    have hvalue : EscapeFree (Text.padLeft 10 (toString m.2)) := .append (.blanks _) (.int _)
    exact ((((show EscapeFree "  " by decide).append hname).append (by decide)).append
      hvalue).append (by decide)

theorem showsAs_severityCounts (r : AnalysisResult) :
    List.Forall₂ ShowsAs ({ report with colored := true }.severityCounts r)
      ({ report with colored := false }.severityCounts r) := by
  unfold severityCounts
  refine List.rel_append (List.rel_append ?_ ?_) ?_
  all_goals
    dsimp only
    split
    · exact .nil
  · exact .cons (showsAs_paint report .red (escapeFree_countText _ (by decide) (by decide))) .nil
  · exact .cons (showsAs_paint report .yellow (escapeFree_countText _ (by decide) (by decide))) .nil
  · exact .cons (.refl (escapeFree_countText _ (by decide) (by decide))) .nil

theorem showsAs_summary (r : AnalysisResult) :
    ShowsAs ({ report with colored := true }.summary r)
      ({ report with colored := false }.summary r) := by
  have hcounts := showsAs_severityCounts report r
  have hfindings : EscapeFree (countText r.findings.length "finding" "findings") :=
    escapeFree_countText _ (by decide) (by decide)
  have hfiles : EscapeFree (countText (byFile r.findings).length "file" "files") :=
    escapeFree_countText _ (by decide) (by decide)
  have hnumbers := (((show EscapeFree "\n" by decide).append hfindings).append
    (show EscapeFree " in " by decide)).append hfiles
  have hempty : ({ report with colored := true }.severityCounts r).isEmpty =
      ({ report with colored := false }.severityCounts r).isEmpty := by
    rw [Bool.eq_iff_iff, List.isEmpty_iff, List.isEmpty_iff, ← List.length_eq_zero_iff,
      ← List.length_eq_zero_iff, hcounts.length_eq]
  refine ((ShowsAs.refl hnumbers).append ?_).append (.refl (by decide))
  rw [hempty]
  split
  · exact .refl (by decide)
  · exact ((ShowsAs.refl (by decide)).append (.intercalate (by decide) hcounts)).append
      (.refl (by decide))

theorem mem_byFile {fs : List Finding} :
    ∀ g ∈ byFile fs, (∃ f ∈ fs, f.location.path = g.1) ∧ ∀ f ∈ g.2, f ∈ fs := by
  refine List.foldlRecOn (motive := fun groups : List (Path × List Finding) => ∀ g ∈ groups,
    (∃ f ∈ fs, f.location.path = g.1) ∧ ∀ f ∈ g.2, f ∈ fs) fs _
    (fun g hg => absurd hg List.not_mem_nil) fun groups hgroups f hf => ?_
  refine Table.forall_update hgroups ⟨⟨f, hf, rfl⟩, by simpa using hf⟩ fun g hg => ?_
  obtain ⟨hpath, hall⟩ := hgroups g hg
  refine ⟨hpath, fun f' hf' => ?_⟩
  rcases List.mem_append.mp hf' with hf' | hf'
  · exact hall f' hf'
  · exact List.mem_singleton.mp hf' ▸ hf

/-- Whatever the settings, a report comes out with colours exactly if it does without, and without
the escape sequences it is the same report. -/
theorem colours_change_only_colour (r : AnalysisResult) (h : ∀ s ∈ r.printed, EscapeFree s) :
    ({ report with colored := true }.render r).isSome =
        ({ report with colored := false }.render r).isSome ∧
      ({ report with colored := true }.render r).map withoutEscapes =
        { report with colored := false }.render r := by
  simp only [AnalysisResult.printed, List.mem_append, List.mem_flatMap, List.mem_map, or_imp,
    forall_and, forall_exists_index, and_imp, forall_apply_eq_imp_iff₂] at h
  obtain ⟨⟨hfindings, hnotifications⟩, hmetrics⟩ := h
  have hfiles : ShowsAs
      (String.join ((byFile r.findings).map { report with colored := true }.fileBlock))
      (String.join ((byFile r.findings).map { report with colored := false }.fileBlock)) := by
    refine .join_map fun g hg => ?_
    obtain ⟨⟨f, hf, hpath⟩, hall⟩ := mem_byFile g hg
    refine showsAs_fileBlock report ?_ fun f' hf' => ⟨?_, ?_, ?_⟩
    · exact hpath ▸ hfindings _ f hf (by simp)
    all_goals exact hfindings _ f' (hall f' hf') (by simp)
  have hnotes : ShowsAs
      (String.join (r.notifications.map { report with colored := true }.notificationLine))
      (String.join (r.notifications.map { report with colored := false }.notificationLine)) :=
    .join_map fun n hn => showsAs_notificationLine report (hnotifications n hn)
  have htotals : EscapeFree (if report.metrics then metricsBlock r.metrics else "") := by
    split
    · exact escapeFree_metricsBlock hmetrics
    · decide
  have hsummary : ShowsAs
      (if report.stats then { report with colored := true }.summary r else "")
      (if report.stats then { report with colored := false }.summary r else "") := by
    split
    · exact showsAs_summary report r
    · exact .refl (by decide)
  -- Part by part the coloured text shows as the plain one, so the whole does.
  have hall := ((hfiles.append hnotes).append (.refl htotals)).append hsummary
  unfold render
  split
  · exact ⟨rfl, rfl⟩
  · rw [Option.isSome_some, Option.isSome_some]
    exact ⟨rfl, congrArg some hall.withoutEscapes_eq⟩

/-- A result with something in every part of a report. -/
def mixed : AnalysisResult where
  findings := [.error, .info, .warning].map fun severity => {
    ruleId := "LongMethod", ruleSetId := "complexity", severity, message := "takes [0m] too long"
    entity := { name := "f", signature := "f", location := ⟨⟨"a.kt"⟩, {}⟩ } }
  notifications := [⟨"careful", .warning⟩, ⟨"started", .info⟩]
  metrics := [("loc", 120)]

theorem colours_change_only_colour_mixed :
    (∀ s ∈ mixed.printed, EscapeFree s) ∧
      ({ colored := true, metrics := true : TextReport }.render mixed).isSome =
        ({ colored := false, metrics := true : TextReport }.render mixed).isSome ∧
      ({ colored := true, metrics := true : TextReport }.render mixed).map withoutEscapes =
        { colored := false, metrics := true : TextReport }.render mixed := by
  have hprinted : ∀ s ∈ mixed.printed, EscapeFree s := by decide
  exact ⟨hprinted, colours_change_only_colour { metrics := true } mixed hprinted⟩

example : Style.boldRed.apply "error" = "\x1b[1;31merror\x1b[0m" ∧
    withoutEscapes "\x1b[1;31merror\x1b[0m [0m]" = "error [0m]" := by
  decide +kernel

end TextReport

end CodeAudit
