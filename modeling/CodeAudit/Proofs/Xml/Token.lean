import CodeAudit.Proofs.Text.Trim
import CodeAudit.Xml.Token

namespace CodeAudit.Xml

/-! ### One step of reading -/

theorem tokensOf_eq (cs : List Char) :
    tokensOf cs =
      match Text.cutAt? (· == '<') cs with
      | none => textTokens cs
      | some (before, rest) =>
        textTokens before ++
          match markup? rest with
          | none => [.broken]
          | some (t, rest) => t.toList ++ tokensOf rest := by
  rw [tokensOf]
  split
  · rename_i hcut
    rw [hcut]
  · rename_i before rest hcut
    rw [hcut]
    congr 1
    split <;> rename_i hmarkup <;> rw [hmarkup]

theorem cutAt?_markup {before : List Char} (h : '<' ∉ before) (rest : List Char) :
    Text.cutAt? (· == '<') (before ++ '<' :: rest) = some (before, rest) := by
  have hbefore : ∀ c ∈ before, (!(c == '<')) = true := by
    intro c hc
    simp only [Bool.not_eq_true', beq_eq_false_iff_ne]
    rintro rfl
    exact h hc
  unfold Text.cutAt?
  rw [List.dropWhile_append_of_pos hbefore, List.takeWhile_append_of_pos hbefore]
  simp

theorem cutAt?_cons {c : Char} (h : c ≠ '<') (cs : List Char) :
    Text.cutAt? (· == '<') (c :: cs) =
      (Text.cutAt? (· == '<') cs).map fun x => (c :: x.1, x.2) := by
  have hc : (c == '<') = false := beq_false_of_ne h
  simp only [Text.cutAt?, List.dropWhile_cons, List.takeWhile_cons, hc, Bool.not_false, if_true]
  cases cs.dropWhile fun c => !(c == '<') <;> rfl

theorem tokensOf_markup {before rest rest' : List Char} {t : Option Token} (h : '<' ∉ before)
    (hmarkup : markup? rest = some (t, rest')) :
    tokensOf (before ++ '<' :: rest) = textTokens before ++ (t.toList ++ tokensOf rest') := by
  rw [tokensOf_eq, cutAt?_markup h]
  simp only [hmarkup]

theorem tokensOf_tag {rest rest' : List Char} {t : Option Token}
    (hmarkup : markup? rest = some (t, rest')) :
    tokensOf ('<' :: rest) = t.toList ++ tokensOf rest' :=
  tokensOf_markup List.not_mem_nil hmarkup

theorem textTokens_cons_blank {c : Char} (h : Text.isAsciiBlank c = true) (cs : List Char) :
    textTokens (c :: cs) = textTokens cs := by
  unfold textTokens Text.trimList
  rw [List.dropWhile_cons_of_pos h]

theorem tokensOf_cons_blank {c : Char} (h : Text.isAsciiBlank c = true) (cs : List Char) :
    tokensOf (c :: cs) = tokensOf cs := by
  have hc : c ≠ '<' := by
    rintro rfl
    exact absurd h (by decide)
  rw [tokensOf_eq, tokensOf_eq cs, cutAt?_cons hc]
  cases Text.cutAt? (· == '<') cs with
  | none => exact textTokens_cons_blank h cs
  | some x => simp only [Option.map_some, textTokens_cons_blank h]

/-! ### Tags -/

theorem cutMarkup?_eq {ends : List Char → Bool} {content seen : List Char} (h : '>' ∉ content)
    (rest : List Char) (hends : ends (content.reverse ++ seen) = true) :
    cutMarkup? ends seen (content ++ '>' :: rest) = some (seen.reverse ++ content, rest) := by
  induction content generalizing seen with
  | nil =>
    have hends : ends seen = true := hends
    simp [cutMarkup?, hends]
  | cons c content ih =>
    obtain ⟨hc, hcontent⟩ := not_or.mp (mt List.mem_cons.mpr h)
    rw [List.cons_append, cutMarkup?, if_neg (by simp [Ne.symm hc]), ih hcontent]
    · simp
    · simpa using hends

def isPlain (name : String) : Bool := !name.toList.isEmpty && name.toList.all Char.isAlpha

theorem ne_of_isAlpha {c d : Char} (h : c.isAlpha = true) (hd : d.isAlpha = false) : c ≠ d := by
  rintro rfl
  exact absurd h (by simp [hd])

theorem isAlpha_of_isPlain {name : String} (h : isPlain name = true) {c : Char}
    (hc : c ∈ name.toList) : c.isAlpha = true := by
  unfold isPlain at h
  exact List.all_eq_true.mp (Bool.and_eq_true_iff.mp h).2 c hc

theorem not_mem_of_isPlain {name : String} (h : isPlain name = true) {d : Char}
    (hd : d.isAlpha = false) : d ∉ name.toList :=
  fun hmem => ne_of_isAlpha (isAlpha_of_isPlain h hmem) hd rfl

theorem not_isAsciiBlank_of_isAlpha {c : Char} (h : c.isAlpha = true) :
    Text.isAsciiBlank c = false := by
  have hne (d : Char) (hd : d.isAlpha = false) : (c == d) = false :=
    beq_false_of_ne (ne_of_isAlpha h hd)
  simp [Text.isAsciiBlank, hne ' ' (by decide), hne '\t' (by decide), hne '\n' (by decide),
    hne '\r' (by decide)]

theorem openQuote_eq_none {cs : List Char} (h : ∀ c ∈ cs, c ≠ '"' ∧ c ≠ '\'') :
    openQuote cs = none := by
  unfold openQuote
  induction cs with
  | nil => rfl
  | cons c rest ih =>
    obtain ⟨hc, hrest⟩ := List.forall_mem_cons.mp h
    rw [List.foldl_cons]
    simpa [hc.1, hc.2] using ih hrest

theorem endsTag_of_no_quote {seen : List Char} (h : ∀ c ∈ seen, c ≠ '"' ∧ c ≠ '\'') :
    endsTag seen = true := by
  rw [endsTag, openQuote_eq_none]
  · rfl
  · intro c hc
    exact h c (List.mem_reverse.mp hc)

theorem tagName_of_isPlain {name : String} (h : isPlain name = true) :
    tagName name.toList = name := by
  have hall : (name.toList ++ []).takeWhile (fun c => !Text.isAsciiBlank c) = name.toList ++ [] :=
    List.takeWhile_append_of_pos fun c hc => by
      rw [not_isAsciiBlank_of_isAlpha (isAlpha_of_isPlain h hc)]
      rfl
  rw [List.append_nil] at hall
  rw [tagName, hall, String.ofList_toList]

theorem openingTag_start {name : String} (h : isPlain name = true) :
    openingTag name.toList = .start name := by
  unfold openingTag
  split
  · rename_i before hreverse
    have hmem : '/' ∈ name.toList := List.mem_reverse.mp (hreverse ▸ List.mem_cons_self)
    exact absurd hmem (not_mem_of_isPlain h (by decide))
  · rw [tagName_of_isPlain h]

theorem openingTag_empty {name : String} (h : isPlain name = true) :
    openingTag (name.toList ++ ['/']) = .empty name := by
  simp [openingTag, tagName_of_isPlain h]

theorem closingTag_eq {name : String} (h : isPlain name = true) :
    closingTag name.toList = .close name := by
  have hback : name.toList.reverse.dropWhile Text.isAsciiBlank = name.toList.reverse := by
    rw [Text.dropWhile_eq_self_iff]
    cases hhead : name.toList.reverse.head? with
    | none => rfl
    | some c =>
      have hc := isAlpha_of_isPlain h (List.mem_reverse.mp (List.mem_of_head? hhead))
      simp [not_isAsciiBlank_of_isAlpha hc]
  rw [closingTag, hback, List.reverse_reverse, String.ofList_toList]

theorem markup?_opening {c : Char} (h : c.isAlpha = true) {cs content rest : List Char}
    (hcut : cutMarkup? endsTag [] (c :: cs) = some (content, rest)) :
    markup? (c :: cs) = some (some (openingTag content), rest) := by
  have hne (d : Char) (hd : d.isAlpha = false) (ds : List Char) : c :: cs ≠ d :: ds := by
    intro heq
    exact ne_of_isAlpha h hd (List.cons.inj heq).1
  unfold markup?
  split
  · exact absurd ‹_› (List.cons_ne_nil _ _)
  iterate 3 exact absurd ‹_› (hne '!' (by decide) _)
  · exact absurd ‹_› (hne '?' (by decide) _)
  · exact absurd ‹_› (hne '/' (by decide) _)
  · rw [hcut]
    rfl

theorem markup?_closing {cs content rest : List Char}
    (hcut : cutMarkup? endsTag [] ('/' :: cs) = some (content, rest)) :
    markup? ('/' :: cs) = some (some (closingTag (content.drop 1)), rest) := by
  simp [markup?, hcut]

theorem markup?_instruction {cs content rest : List Char} (hlength : 1 < content.length)
    (hcut : cutMarkup? endsInstruction [] ('?' :: cs) = some (content, rest)) :
    markup? ('?' :: cs) = some (none, rest) := by
  simp [markup?, hcut, hlength]

theorem cutMarkup?_tag {content : List Char} (h : ∀ c ∈ content, c.isAlpha = true ∨ c = '/')
    (rest : List Char) : cutMarkup? endsTag [] (content ++ '>' :: rest) = some (content, rest) := by
  have hne (d : Char) (hd : d.isAlpha = false) (hslash : '/' ≠ d) {c : Char} (hc : c ∈ content) :
      c ≠ d := by
    rcases h c hc with halpha | rfl
    · exact ne_of_isAlpha halpha hd
    · exact hslash
  apply cutMarkup?_eq
  · intro hmem
    exact hne '>' (by decide) (by decide) hmem rfl
  · apply endsTag_of_no_quote
    intro c hc
    rw [List.append_nil, List.mem_reverse] at hc
    exact ⟨hne '"' (by decide) (by decide) hc, hne '\'' (by decide) (by decide) hc⟩

theorem exists_letter_of_isPlain {name : String} (h : isPlain name = true) :
    ∃ c cs, name.toList = c :: cs ∧ c.isAlpha = true := by
  cases hlist : name.toList with
  | nil => simp [isPlain, hlist] at h
  | cons c cs => exact ⟨c, cs, rfl, isAlpha_of_isPlain h (hlist ▸ List.mem_cons_self)⟩

theorem markup?_start {name : String} (h : isPlain name = true) (rest : List Char) :
    markup? (name.toList ++ '>' :: rest) = some (some (.start name), rest) := by
  have hcut := cutMarkup?_tag (fun c hc => .inl (isAlpha_of_isPlain h hc)) rest
  obtain ⟨c, cs, hlist, hc⟩ := exists_letter_of_isPlain h
  rw [← openingTag_start h]
  rw [hlist] at hcut ⊢
  exact markup?_opening hc hcut

theorem markup?_empty {name : String} (h : isPlain name = true) (rest : List Char) :
    markup? (name.toList ++ ['/'] ++ '>' :: rest) = some (some (.empty name), rest) := by
  have hchars : ∀ c ∈ name.toList ++ ['/'], c.isAlpha = true ∨ c = '/' := by
    intro c hc
    rcases List.mem_append.mp hc with hc | hc
    · exact .inl (isAlpha_of_isPlain h hc)
    · exact .inr (List.mem_singleton.mp hc)
  have hcut := cutMarkup?_tag hchars rest
  obtain ⟨c, cs, hlist, hc⟩ := exists_letter_of_isPlain h
  rw [← openingTag_empty h]
  rw [hlist] at hcut ⊢
  exact markup?_opening hc hcut

theorem markup?_close {name : String} (h : isPlain name = true) (rest : List Char) :
    markup? ('/' :: (name.toList ++ '>' :: rest)) = some (some (.close name), rest) := by
  have hchars : ∀ c ∈ '/' :: name.toList, c.isAlpha = true ∨ c = '/' := by
    intro c hc
    rcases List.mem_cons.mp hc with hc | hc
    · exact .inr hc
    · exact .inl (isAlpha_of_isPlain h hc)
  have hcut : cutMarkup? endsTag [] ('/' :: (name.toList ++ '>' :: rest)) =
      some ('/' :: name.toList, rest) := cutMarkup?_tag hchars rest
  rw [markup?_closing hcut, List.drop_one, List.tail_cons, closingTag_eq h]

/-! ### Pieces -/

/-- A piece of a document gives these tokens, whatever follows it. -/
def Reads (piece : String) (ts : List Token) : Prop :=
  ∀ rest, tokensOf (piece.toList ++ rest) = ts ++ tokensOf rest

namespace Reads

theorem append {a b : String} {s t : List Token} (ha : Reads a s) (hb : Reads b t) :
    Reads (a ++ b) (s ++ t) := by
  intro rest
  rw [String.toList_append, List.append_assoc, ha, hb, List.append_assoc]

theorem join {α : Type} {l : List α} {piece : α → String} {ts : α → List Token}
    (h : ∀ x ∈ l, Reads (piece x) (ts x)) :
    Reads (String.join (l.map piece)) (l.flatMap ts) := by
  induction l with
  | nil => exact fun _ => rfl
  | cons x rest ih =>
    obtain ⟨hx, hrest⟩ := List.forall_mem_cons.mp h
    rw [List.map_cons, String.join_cons, List.flatMap_cons]
    exact hx.append (ih hrest)

theorem blank {s : String} (h : s.toList.all Text.isAsciiBlank = true) : Reads s [] := by
  intro rest
  generalize s.toList = cs at h
  induction cs with
  | nil => rfl
  | cons c cs ih =>
    obtain ⟨hc, hcs⟩ := Bool.and_eq_true_iff.mp (List.all_cons ▸ h)
    rw [List.cons_append, tokensOf_cons_blank hc, ih hcs]

theorem line (indent : String) (hindent : indent.toList.all Text.isAsciiBlank = true)
    {s : String} {ts : List Token} (h : Reads s ts) {whole : String}
    (hwhole : whole.toList = indent.toList ++ (s.toList ++ ['\n'])) : Reads whole ts := by
  intro rest
  have hread := ((blank hindent).append h).append (blank (s := "\n") (by decide)) rest
  simpa [hwhole] using hread

variable {name : String} (hname : isPlain name = true)
include hname

theorem start : Reads ("<" ++ name ++ ">") [.start name] := by
  intro rest
  simpa using tokensOf_tag (markup?_start hname rest)

theorem empty : Reads ("<" ++ name ++ "/>") [.empty name] := by
  intro rest
  simpa using tokensOf_tag (markup?_empty hname rest)

theorem textClose (text : String) (h : '<' ∉ text.toList) :
    Reads (text ++ "</" ++ name ++ ">") (textTokens text.toList ++ [.close name]) := by
  intro rest
  simpa using tokensOf_markup h (markup?_close hname rest)

theorem close : Reads ("</" ++ name ++ ">") [.close name] := by
  simpa [textTokens, Text.trimList] using textClose hname "" (by simp)

end Reads

theorem Reads.instruction (content : String) (h : '>' ∉ content.toList) :
    Reads ("<?" ++ content ++ "?>") [] := by
  intro rest
  have hchars : '>' ∉ '?' :: (content.toList ++ ['?']) := by simpa using h
  have hends : endsInstruction (('?' :: (content.toList ++ ['?'])).reverse ++ []) = true := by
    simp [endsInstruction]
  have hmarkup := markup?_instruction (by simp) (cutMarkup?_eq hchars rest hends)
  simpa using tokensOf_tag hmarkup

theorem tokens_of_reads {document : String} {ts : List Token} (h : Reads document ts)
    (hmark : document.toList.head? ≠ some '\uFEFF') : tokens document = ts := by
  have hwhole : tokens document = tokensOf document.toList := by
    unfold tokens
    split
    · rename_i hlist
      exact absurd (by rw [hlist]; rfl) hmark
    · rfl
  have hnil : tokensOf [] = [] := by rw [tokensOf_eq]; rfl
  have hread := h []
  rw [List.append_nil, hnil, List.append_nil] at hread
  rw [hwhole, hread]

end CodeAudit.Xml
