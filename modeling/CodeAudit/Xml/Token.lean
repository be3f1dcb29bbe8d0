import CodeAudit.Text.Blank
import CodeAudit.Text.Pieces

/-!
Markup cut into tags and text. Comments, character data sections, instructions, document types and
attributes are dropped; text is trimmed, and blank text is dropped as well.
-/

namespace CodeAudit.Xml

inductive Token where
  | start (name : String)
  | empty (name : String)
  | close (name : String)
  | text (raw : List Char)
  | broken
deriving DecidableEq, Repr

/-- Cuts at the first `>` that `ends` accepts, given the characters before it, last one first. -/
def cutMarkup? (ends : List Char → Bool) :
    List Char → List Char → Option (List Char × List Char)
  | _, [] => none
  | seen, c :: rest =>
    if c == '>' && ends seen then some (seen.reverse, rest) else cutMarkup? ends (c :: seen) rest

theorem length_lt_of_cutMarkup? {ends : List Char → Bool} {seen cs content rest : List Char}
    (h : cutMarkup? ends seen cs = some (content, rest)) : rest.length < cs.length := by
  induction cs generalizing seen with
  | nil => simp [cutMarkup?] at h
  | cons c cs ih =>
    simp only [cutMarkup?] at h
    split at h
    · simp_all
    · have := ih h
      simp only [List.length_cons]
      omega

def openQuote (cs : List Char) : Option Char :=
  cs.foldl
    (fun quote c =>
      match quote with
      | none => if c == '"' || c == '\'' then some c else none
      | some q => if c == q then none else some q)
    none

def endsTag (seen : List Char) : Bool := (openQuote seen.reverse).isNone

/-- A comment ends in two dashes that are not those it began with. -/
def endsComment : List Char → Bool
  | '-' :: '-' :: before => 3 ≤ before.length
  | _ => false

def endsCharacterData : List Char → Bool
  | ']' :: ']' :: _ => true
  | _ => false

def endsDocumentType (seen : List Char) : Bool :=
  seen.countP (· == '<') == seen.countP (· == '>')

def endsInstruction : List Char → Bool
  | '?' :: _ => true
  | _ => false

def tagName (content : List Char) : String :=
  String.ofList (content.takeWhile fun c => !Text.isAsciiBlank c)

/-- The token of a tag that is not a closing one. -/
def openingTag (content : List Char) : Token :=
  match content.reverse with
  | '/' :: before => .empty (tagName before.reverse)
  | _ => .start (tagName content)

/-- The token of a closing tag; blanks may stand behind the name. -/
def closingTag (content : List Char) : Token :=
  .close (String.ofList (content.reverse.dropWhile Text.isAsciiBlank).reverse)

def isDocumentType (content : List Char) : Bool :=
  (content.take 8).map Char.toUpper == "!DOCTYPE".toList &&
    (content.drop 8).any fun c => !Text.isAsciiBlank c

/-- What is behind a `<`: a token, unless it is dropped, and what follows it. -/
def markup? (cs : List Char) : Option (Option Token × List Char) := do
  match cs with
  | [] => none
  | '!' :: '-' :: _ =>
    let (content, rest) ← cutMarkup? endsComment [] cs
    if "!--".toList.isPrefixOf content then return (none, rest) else none
  | '!' :: '[' :: _ =>
    let (content, rest) ← cutMarkup? endsCharacterData [] cs
    if "![CDATA[".toList.isPrefixOf content then return (none, rest) else none
  | '!' :: _ =>
    let (content, rest) ← cutMarkup? endsDocumentType [] cs
    if isDocumentType content then return (none, rest) else none
  | '?' :: _ =>
    let (content, rest) ← cutMarkup? endsInstruction [] cs
    if 1 < content.length then return (none, rest) else none
  | '/' :: _ =>
    let (content, rest) ← cutMarkup? endsTag [] cs
    return (some (closingTag (content.drop 1)), rest)
  | _ =>
    let (content, rest) ← cutMarkup? endsTag [] cs
    return (some (openingTag content), rest)

theorem length_lt_of_markup? {cs rest : List Char} {t : Option Token}
    (h : markup? cs = some (t, rest)) : rest.length < cs.length := by
  have cut {ends : List Char → Bool} {content : List Char}
      (hc : cutMarkup? ends [] cs = some (content, rest)) := length_lt_of_cutMarkup? hc
  unfold markup? at h
  split at h
  case h_1 => simp at h
  all_goals
    simp only [bind, Option.bind_eq_some_iff, Prod.exists] at h
    obtain ⟨content, r, hc, h⟩ := h
    try split at h
    all_goals
      first
      | simp at h; done
      | (simp only [pure, Option.some.injEq, Prod.mk.injEq] at h
         obtain ⟨-, rfl⟩ := h
         exact cut hc)

/-- The token of a piece of text, unless it is blank. -/
def textTokens (cs : List Char) : List Token :=
  let trimmed := Text.trimList Text.isAsciiBlank cs
  if trimmed.isEmpty then [] else [.text trimmed]

theorem length_lt_of_cutAt? {p : Char → Bool} {cs before rest : List Char}
    (h : Text.cutAt? p cs = some (before, rest)) : rest.length < cs.length := by
  unfold Text.cutAt? at h
  have := (List.dropWhile_sublist (l := cs) fun c => !p c).length_le
  split at h
  · simp at h
  · rename_i hd
    simp only [Option.some.injEq, Prod.mk.injEq] at h
    obtain ⟨-, rfl⟩ := h
    simp only [hd, List.length_cons] at this
    omega

def tokensOf (cs : List Char) : List Token :=
  match _h : Text.cutAt? (· == '<') cs with
  | none => textTokens cs
  | some (before, rest) =>
    textTokens before ++
      match _m : markup? rest with
      | none => [.broken]
      | some (t, rest) => t.toList ++ tokensOf rest
termination_by cs.length
decreasing_by
  have := length_lt_of_cutAt? _h
  have := length_lt_of_markup? _m
  omega

def tokens (document : String) : List Token :=
  match document.toList with
  | '\uFEFF' :: rest => tokensOf rest
  | cs => tokensOf cs

end CodeAudit.Xml
