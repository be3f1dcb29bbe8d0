import CodeAudit.Proofs.Baseline.Document

/-!
The documents that are read as baselines, by a grammar over markup trees. Reading accepts the
token sequences of the grammar's documents and no others, and what it records are the ids of the
document. Each kind of element has one statement about the reading of its content, which tells
what was read by the time its closing tag is reached.
-/

namespace CodeAudit

namespace Xml

/-- Markup as a tree. -/
inductive Item where
  | text (raw : List Char)
  | leaf (name : String)
  | element (name : String) (content : List Item)

namespace Item

mutual

/-- The tokens that the item is written with. -/
def tokens : Item → List Token
  | text raw => [.text raw]
  | leaf name => [.empty name]
  | element name content => .start name :: (tokensIn content ++ [.close name])

def tokensIn : List Item → List Token
  | [] => []
  | x :: rest => x.tokens ++ tokensIn rest

end

theorem tokensIn_append (xs ys : List Item) : tokensIn (xs ++ ys) = tokensIn xs ++ tokensIn ys := by
  induction xs with
  | nil => rfl
  | cons x rest ih => rw [List.cons_append, tokensIn, tokensIn, ih, List.append_assoc]

theorem tokensIn_cons (x : Item) (rest : List Item) (after : List Token) :
    tokensIn (x :: rest) ++ after = x.tokens ++ (tokensIn rest ++ after) := by
  rw [tokensIn, List.append_assoc]

theorem tokens_element (name : String) (content : List Item) (after : List Token) :
    (element name content).tokens ++ after =
      .start name :: (tokensIn content ++ .close name :: after) := by
  simp [tokens]

theorem length_tokens_pos (x : Item) : 0 < x.tokens.length := by
  cases x <;> simp [tokens]

/-- The content of an element with the name; one in a single tag has none. -/
def contentNamed? (name : String) : Item → Option (List Item)
  | text _ => none
  | leaf n => if n = name then some [] else none
  | element n content => if n = name then some content else none

theorem contentNamed?_leaf (name : String) : contentNamed? name (leaf name) = some [] := if_pos rfl

theorem contentNamed?_element (name : String) (content : List Item) :
    contentNamed? name (element name content) = some content := if_pos rfl

/-- The text of an item that is a text, as it reads. -/
def reading? : Item → Option String
  | text raw => (unescapeList? raw).map String.ofList
  | leaf _ | element _ _ => none

end Item

end Xml

namespace Baseline

open Xml Item

/-! ### The grammar -/

/-- Text that reads as white space. -/
inductive Filler : Item → Prop
  | blank {raw text : List Char} (hread : unescapeList? raw = some text)
      (hblank : Text.isBlankText (String.ofList text) = true) : Filler (.text raw)

/-- What an id may hold: any text that can be read. -/
inductive IdPart : Item → Prop
  | text {raw text : List Char} (hread : unescapeList? raw = some text) : IdPart (.text raw)

/-- What a section may hold. -/
inductive SectionPart : Item → Prop
  | filler {x : Item} (h : Filler x) : SectionPart x
  | emptyId : SectionPart (.leaf idName)
  | fullId {content : List Item} (h : ∀ x ∈ content, IdPart x) :
      SectionPart (.element idName content)

/-- What the root may hold. -/
inductive RootPart : Item → Prop
  | filler {x : Item} (h : Filler x) : RootPart x
  | emptySection (s : Section) : RootPart (.leaf s.name)
  | fullSection (s : Section) {content : List Item} (h : ∀ x ∈ content, SectionPart x) :
      RootPart (.element s.name content)

inductive Root : Item → Prop
  | empty : Root (.leaf rootName)
  | full {content : List Item} (h : ∀ x ∈ content, RootPart x) : Root (.element rootName content)

/-- One root, and nothing beside it but white space. -/
inductive Document : List Item → Prop
  | around {before after : List Item} {root : Item} (hbefore : ∀ x ∈ before, Filler x)
      (hroot : Root root) (hafter : ∀ x ∈ after, Filler x) : Document (before ++ root :: after)

/-- The contents of the elements with a name, in order. -/
def contentsNamed (name : String) (items : List Item) : List (List Item) :=
  items.filterMap (contentNamed? name)

/-- The text of an id: all its pieces, one behind the other. -/
def idText (content : List Item) : String := String.join (content.filterMap reading?)

def idsIn (content : List Item) : List String := (contentsNamed idName content).map idText

/-- The texts of the ids in all sections of a kind. -/
def idsOf (s : Section) (doc : List Item) : List String :=
  (contentsNamed rootName doc).flatMap fun root => (contentsNamed s.name root).flatMap idsIn

/-- The baseline that a document stands for. -/
def gathered (doc : List Item) : Baseline where
  manual := .ofList (legible (idsOf .manual doc))
  current := .ofList (legible (idsOf .current doc))

/-! ### What a token can do -/

/-- The moves of a reading, each with the token that makes it. -/
inductive Moves : Position × Baseline → Token → Position × Baseline → Prop
  | openRoot {b : Baseline} : Moves (.beforeRoot, b) (.start rootName) (.inRoot, b)
  | emptyRoot {b : Baseline} : Moves (.beforeRoot, b) (.empty rootName) (.afterRoot, b)
  | closeRoot {b : Baseline} : Moves (.inRoot, b) (.close rootName) (.afterRoot, b)
  | openSection {s : Section} {b : Baseline} :
      Moves (.inRoot, b) (.start s.name) (.inSection s, b)
  | emptySection {s : Section} {b : Baseline} : Moves (.inRoot, b) (.empty s.name) (.inRoot, b)
  | closeSection {s : Section} {b : Baseline} :
      Moves (.inSection s, b) (.close s.name) (.inRoot, b)
  | openId {s : Section} {b : Baseline} : Moves (.inSection s, b) (.start idName) (.inId s "", b)
  | emptyId {s : Section} {b : Baseline} :
      Moves (.inSection s, b) (.empty idName) (.inSection s, b)
  | closeId {s : Section} {text : String} {b : Baseline} :
      Moves (.inId s text, b) (.close idName) (.inSection s, b.record s text)
  | idText {s : Section} {before : String} {b : Baseline} {raw text : List Char}
      (hread : unescapeList? raw = some text) :
      Moves (.inId s before, b) (.text raw) (.inId s (before ++ String.ofList text), b)
  | filler {p : Position} {b : Baseline} {raw : List Char} (hp : ∀ s text, p ≠ .inId s text)
      (h : Filler (.text raw)) : Moves (p, b) (.text raw) (p, b)

theorem moves_of_openElement {p q : Position} {name : String} (h : openElement p name = .ok q)
    (b : Baseline) : Moves (p, b) (.start name) (q, b) := by
  cases p with
  | beforeRoot =>
    simp only [openElement] at h
    split at h
    next hname =>
      cases h
      exact beq_iff_eq.mp hname ▸ .openRoot
    next => cases h
  | inRoot =>
    simp only [openElement] at h
    split at h
    next s hs =>
      cases h
      exact Section.eq_name_of_ofName? hs ▸ .openSection
    next => cases h
  | inSection s =>
    simp only [openElement] at h
    split at h
    next hname =>
      cases h
      exact beq_iff_eq.mp hname ▸ .openId
    next => cases h
  | inId s text => cases h
  | afterRoot => cases h

theorem moves_of_emptyElement {p q : Position} {name : String} (h : emptyElement p name = .ok q)
    (b : Baseline) : Moves (p, b) (.empty name) (q, b) := by
  cases p with
  | beforeRoot =>
    simp only [emptyElement] at h
    split at h
    next hname =>
      cases h
      exact beq_iff_eq.mp hname ▸ .emptyRoot
    next => cases h
  | inRoot =>
    simp only [emptyElement] at h
    split at h
    next hs =>
      cases h
      obtain ⟨s, hs⟩ := Option.isSome_iff_exists.mp hs
      exact Section.eq_name_of_ofName? hs ▸ .emptySection
    next => cases h
  | inSection s =>
    simp only [emptyElement] at h
    split at h
    next hname =>
      cases h
      exact beq_iff_eq.mp hname ▸ .emptyId
    next => cases h
  | inId s text => cases h
  | afterRoot => cases h

theorem moves_of_closeElement {p : Position} {b : Baseline} {name : String}
    {state : Position × Baseline} (h : closeElement p b name = .ok state) :
    Moves (p, b) (.close name) state := by
  unfold closeElement at h
  split at h
  next => cases h
  next hname =>
    have hlast : p.elements.getLast? = some name := by simpa using hname
    cases p with
    | inId s text =>
      cases h
      exact Option.some.inj hlast ▸ .closeId
    | inSection s =>
      cases h
      exact Option.some.inj hlast ▸ .closeSection
    | inRoot =>
      cases h
      exact Option.some.inj hlast ▸ .closeRoot
    | beforeRoot => cases h
    | afterRoot => cases h

theorem moves_of_readText {p q : Position} {raw text : List Char}
    (hread : unescapeList? raw = some text) (h : readText p (String.ofList text) = .ok q)
    (b : Baseline) : Moves (p, b) (.text raw) (q, b) := by
  unfold readText at h
  split at h
  next =>
    cases h
    exact .idText hread
  next hp =>
    split at h
    next hblank =>
      cases h
      exact .filler hp (.blank hread hblank)
    next => cases h

theorem step_eq_ok_iff {state state' : Position × Baseline} {t : Token} :
    step state t = .ok state' ↔ Moves state t state' := by
  constructor
  · intro h
    obtain ⟨p, b⟩ := state
    cases t with
    | start name =>
      obtain ⟨q, hq, rfl⟩ := Success.of_map h
      exact moves_of_openElement hq b
    | empty name =>
      obtain ⟨q, hq, rfl⟩ := Success.of_map h
      exact moves_of_emptyElement hq b
    | close name => exact moves_of_closeElement h
    | text raw =>
      simp only [step] at h
      split at h
      next text hread =>
        obtain ⟨q, hq, rfl⟩ := Success.of_map h
        exact moves_of_readText hread hq b
      next => cases h
    | broken => cases h
  · intro h
    cases h with
    | openRoot | emptyRoot | closeRoot | openId | emptyId => rfl
    -- The names of the two sections are literals, so that the step computes.
    | @openSection s _ | @emptySection s _ | @closeSection s _ | @closeId s _ _ =>
      cases s <;> rfl
    | idText hread => simp [step, hread, readText, Except.map]
    | filler hp h =>
      cases h with
      | blank hread hblank =>
        have hkept : readText _ _ = .ok _ := (readText.eq_2 _ _ hp).trans (if_pos hblank)
        simp [step, hread, hkept, Except.map]

/-! ### What has been recorded -/

/-- Records ids one by one, each in its section. -/
def recordAll (b : Baseline) (entries : List (Section × String)) : Baseline :=
  entries.foldl (fun b e => b.record e.1 e.2) b

def entriesOf (x : Item) : List (Section × String) :=
  [Section.manual, .current].flatMap fun s =>
    (contentNamed? s.name x).toList.flatMap fun content => (idsIn content).map (s, ·)

theorem contentNamed?_filler {x : Item} (h : Filler x) (name : String) :
    contentNamed? name x = none := by
  cases h
  rfl

theorem entriesOf_filler {x : Item} (h : Filler x) : entriesOf x = [] := by
  cases h
  rfl

theorem entriesOf_leaf (s : Section) : entriesOf (.leaf s.name) = [] := by
  cases s <;> decide

theorem entriesOf_section (s : Section) (content : List Item) :
    entriesOf (.element s.name content) = (idsIn content).map (s, ·) := by
  cases s <;> simp [entriesOf, contentNamed?, Section.name]

/-- What is recorded for an item of a section: its text, if it is an id. -/
def idOf (s : Section) (x : Item) : List (Section × String) :=
  ((contentNamed? idName x).map fun content => (s, idText content)).toList

theorem map_idsIn (s : Section) (content : List Item) :
    (idsIn content).map (s, ·) = content.flatMap (idOf s) := by
  rw [idsIn, contentsNamed, List.map_map, List.map_filterMap, List.filterMap_eq_flatMap_toList]
  rfl

theorem recordAll_idOf_leaf (b : Baseline) (s : Section) :
    b.recordAll (idOf s (.leaf idName)) = b := by
  rw [idOf, contentNamed?_leaf]
  rfl

theorem recordAll_idOf_element (b : Baseline) (s : Section) (content : List Item) :
    b.recordAll (idOf s (.element idName content)) = b.record s (idText content) := by
  rw [idOf, contentNamed?_element]
  simp only [Option.map_some, Option.toList_some, recordAll, List.foldl_cons, List.foldl_nil]

theorem idOf_filler {x : Item} (h : Filler x) (s : Section) : idOf s x = [] := by
  rw [idOf, contentNamed?_filler h]
  rfl

/-- The ids of a document, each with its section. -/
def entriesIn (doc : List Item) : List (Section × String) :=
  (contentsNamed rootName doc).flatMap fun root => root.flatMap entriesOf

theorem contentsNamed_fillers {items : List Item} (h : ∀ x ∈ items, Filler x) (name : String) :
    contentsNamed name items = [] :=
  List.filterMap_eq_nil_iff.mpr fun x hx => contentNamed?_filler (h x hx) name

theorem entriesIn_around {before after : List Item} {root : Item} {content : List Item}
    (hbefore : ∀ x ∈ before, Filler x) (hafter : ∀ x ∈ after, Filler x)
    (hroot : contentNamed? rootName root = some content) :
    entriesIn (before ++ root :: after) = content.flatMap entriesOf := by
  have hcontents : contentsNamed rootName (before ++ root :: after) = [content] := by
    have hnone := contentsNamed_fillers hafter rootName
    rw [contentsNamed] at hnone ⊢
    rw [List.filterMap_append, List.filterMap_cons, hroot, hnone, ← contentsNamed,
      contentsNamed_fillers hbefore, List.nil_append]
  rw [entriesIn, hcontents, List.flatMap_singleton]

/-! ### Reading to the end -/

/-- The tokens lead from the position to the end of a document. -/
def Completes (p : Position) (b : Baseline) (ts : List Token) (b' : Baseline) : Prop :=
  ts.foldlM step (p, b) = .ok (.afterRoot, b')

section Completes

variable {p q : Position} {b b' c : Baseline} {s : Section} {t : Token} {ts : List Token}

theorem completes_nil_iff : Completes p b [] b' ↔ p = .afterRoot ∧ b = b' := by
  simp [Completes, pure, Except.pure]

theorem Completes.cons (hmove : Moves (p, b) t (q, c)) (h : Completes q c ts b') :
    Completes p b (t :: ts) b' := by
  rw [Completes, List.foldlM_cons, step_eq_ok_iff.mpr hmove]
  exact h

theorem Completes.exists_move (h : Completes p b (t :: ts) b') :
    ∃ q c, Moves (p, b) t (q, c) ∧ Completes q c ts b' := by
  rw [Completes, List.foldlM_cons] at h
  obtain ⟨⟨q, c⟩, hstep, h⟩ := Success.of_bind h
  exact ⟨q, c, step_eq_ok_iff.mp hstep, h⟩

theorem Completes.filler (hp : ∀ s text, p ≠ .inId s text) {x : Item} (hx : Filler x)
    (h : Completes p b ts b') : Completes p b (x.tokens ++ ts) b' := by
  cases hx with
  | blank hread hblank => exact h.cons (.filler hp (.blank hread hblank))

theorem Completes.fillers (hp : ∀ s text, p ≠ .inId s text) {items : List Item}
    (hitems : ∀ x ∈ items, Filler x) (h : Completes p b ts b') :
    Completes p b (tokensIn items ++ ts) b' := by
  induction items with
  | nil => exact h
  | cons x rest ih =>
    obtain ⟨hx, hrest⟩ := List.forall_mem_cons.mp hitems
    rw [tokensIn_cons]
    exact (ih hrest).filler hp hx

theorem completes_afterRoot_iff :
    Completes .afterRoot b ts b' ↔
      ∃ after, (∀ x ∈ after, Filler x) ∧ ts = tokensIn after ∧ b = b' := by
  constructor
  · intro h
    induction ts with
    | nil => exact ⟨[], by simp, rfl, (completes_nil_iff.mp h).2⟩
    | cons t ts ih =>
      obtain ⟨q, c, hmove, h⟩ := h.exists_move
      cases hmove with
      | @filler _ _ raw _ hfiller =>
        obtain ⟨after, hafter, rfl, hb⟩ := ih h
        exact ⟨.text raw :: after, List.forall_mem_cons.mpr ⟨hfiller, hafter⟩, rfl, hb⟩
  · rintro ⟨after, hafter, rfl, rfl⟩
    have hend : Completes .afterRoot b [] b := completes_nil_iff.mpr ⟨rfl, rfl⟩
    simpa using hend.fillers (by simp) hafter

theorem completes_inId_iff {before : String} :
    Completes (.inId s before) b ts b' ↔
      ∃ content rest, (∀ x ∈ content, IdPart x) ∧
        ts = tokensIn content ++ .close idName :: rest ∧
        Completes (.inSection s) (b.record s (before ++ idText content)) rest b' := by
  have hcons {before : String} {raw text : List Char} {content : List Item}
      (hread : unescapeList? raw = some text) :
      before ++ idText (.text raw :: content) = before ++ String.ofList text ++ idText content := by
    simp [idText, reading?, hread, String.append_assoc]
  constructor
  · intro h
    -- An id may come in several pieces, and each of them adds to the text before the next.
    induction ts generalizing before with
    | nil => cases (completes_nil_iff.mp h).1
    | cons t ts ih =>
      obtain ⟨q, c, hmove, h⟩ := h.exists_move
      cases hmove with
      | closeId => exact ⟨[], ts, by simp, rfl, by simpa [idText] using h⟩
      | @idText _ _ _ raw text hread =>
        obtain ⟨content, rest, hcontent, rfl, hrest⟩ := ih h
        exact ⟨.text raw :: content, rest, List.forall_mem_cons.mpr ⟨.text hread, hcontent⟩, rfl,
          hcons hread ▸ hrest⟩
      | filler hp => exact absurd rfl (hp s before)
  · rintro ⟨content, rest, hcontent, rfl, hrest⟩
    induction content generalizing before with
    | nil => exact .cons .closeId (by simpa [idText] using hrest)
    | cons x content ih =>
      obtain ⟨hx, hparts⟩ := List.forall_mem_cons.mp hcontent
      cases hx with
      | text hread => exact (ih hparts (hcons hread ▸ hrest)).cons (.idText hread)

/-- The content of an element that is read part by part: at each point inside, a reading that
completes has either the closing tag or a whole part before it. -/
theorem completes_content_iff {name : String} {Part : Item → Prop}
    {entries : Item → List (Section × String)}
    (hclose : ∀ {b ts}, Completes q b ts b' → Completes p b (.close name :: ts) b')
    (hpart : ∀ {x b ts}, Part x → Completes p (b.recordAll (entries x)) ts b' →
      Completes p b (x.tokens ++ ts) b')
    (hsplit : ∀ {b ts}, Completes p b ts b' →
      (∃ rest, ts = .close name :: rest ∧ Completes q b rest b') ∨
        ∃ x rest, Part x ∧ ts = x.tokens ++ rest ∧
          Completes p (b.recordAll (entries x)) rest b') :
    Completes p b ts b' ↔
      ∃ content rest, (∀ x ∈ content, Part x) ∧ ts = tokensIn content ++ .close name :: rest ∧
        Completes q (b.recordAll (content.flatMap entries)) rest b' := by
  constructor
  · intro h
    -- A part takes one token or more, and what is left after it is shorter.
    induction hlength : ts.length using Nat.strongRecOn generalizing ts b with
    | ind n ih =>
      subst hlength
      obtain ⟨rest, rfl, hrest⟩ | ⟨x, left, hx, rfl, hleft⟩ := hsplit h
      · exact ⟨[], rest, by simp, rfl, hrest⟩
      · have hshorter : left.length < (x.tokens ++ left).length := by
          have hpos := x.length_tokens_pos
          rw [List.length_append]
          omega
        obtain ⟨content, rest, hcontent, rfl, hrest⟩ := ih left.length hshorter hleft rfl
        refine ⟨x :: content, rest, List.forall_mem_cons.mpr ⟨hx, hcontent⟩,
          (tokensIn_cons ..).symm, ?_⟩
        rw [List.flatMap_cons, recordAll, List.foldl_append]
        exact hrest
  · rintro ⟨content, rest, hcontent, rfl, hrest⟩
    induction content generalizing b with
    | nil => exact hclose hrest
    | cons x content ih =>
      obtain ⟨hx, hparts⟩ := List.forall_mem_cons.mp hcontent
      rw [List.flatMap_cons, recordAll, List.foldl_append] at hrest
      rw [tokensIn_cons]
      exact hpart hx (ih hparts hrest)

theorem completes_inSection_iff :
    Completes (.inSection s) b ts b' ↔
      ∃ content rest, (∀ x ∈ content, SectionPart x) ∧
        ts = tokensIn content ++ .close s.name :: rest ∧
        Completes .inRoot (b.recordAll ((idsIn content).map (s, ·))) rest b' := by
  simp only [map_idsIn]
  -- What is to show: the closing tag is right, a part may stand in front, and whatever the first
  -- move is, it begins one of these.
  apply completes_content_iff
  · intro b ts h
    exact h.cons .closeSection
  · intro x b ts hx h
    cases hx with
    | filler hfiller =>
      rw [idOf_filler hfiller] at h
      exact h.filler (by simp) hfiller
    | emptyId =>
      rw [recordAll_idOf_leaf] at h
      exact h.cons .emptyId
    | @fullId inner hinner =>
      rw [recordAll_idOf_element] at h
      have hinside : Completes (.inId s "") b _ b' := completes_inId_iff.mpr
        ⟨inner, ts, hinner, rfl, by simpa using h⟩
      rw [tokens_element]
      exact hinside.cons .openId
  · intro b ts h
    cases ts with
    | nil => cases (completes_nil_iff.mp h).1
    | cons t ts =>
      obtain ⟨q, c, hmove, h⟩ := h.exists_move
      cases hmove with
      | closeSection => exact .inl ⟨ts, rfl, h⟩
      | emptyId => exact .inr ⟨.leaf idName, ts, .emptyId, rfl, by rwa [recordAll_idOf_leaf]⟩
      | @filler _ _ raw _ hfiller =>
        exact .inr ⟨.text raw, ts, .filler hfiller, rfl, by rwa [idOf_filler hfiller]⟩
      | openId =>
        obtain ⟨inner, left, hinner, rfl, hleft⟩ := completes_inId_iff.mp h
        refine .inr ⟨.element idName inner, left, .fullId hinner, (tokens_element ..).symm, ?_⟩
        rw [recordAll_idOf_element]
        simpa using hleft

theorem completes_inRoot_iff :
    Completes .inRoot b ts b' ↔
      ∃ content rest, (∀ x ∈ content, RootPart x) ∧
        ts = tokensIn content ++ .close rootName :: rest ∧
        Completes .afterRoot (b.recordAll (content.flatMap entriesOf)) rest b' := by
  apply completes_content_iff
  · intro b ts h
    exact h.cons .closeRoot
  · intro x b ts hx h
    cases hx with
    | filler hfiller =>
      rw [entriesOf_filler hfiller] at h
      exact h.filler (by simp) hfiller
    | emptySection s =>
      rw [entriesOf_leaf] at h
      exact h.cons .emptySection
    | @fullSection s inner hinner =>
      rw [entriesOf_section] at h
      have hinside := completes_inSection_iff.mpr ⟨inner, ts, hinner, rfl, h⟩
      rw [tokens_element]
      exact hinside.cons .openSection
  · intro b ts h
    cases ts with
    | nil => cases (completes_nil_iff.mp h).1
    | cons t ts =>
      obtain ⟨q, c, hmove, h⟩ := h.exists_move
      cases hmove with
      | closeRoot => exact .inl ⟨ts, rfl, h⟩
      | @emptySection s =>
        exact .inr ⟨.leaf s.name, ts, .emptySection s, rfl, by rwa [entriesOf_leaf]⟩
      | @filler _ _ raw _ hfiller =>
        exact .inr ⟨.text raw, ts, .filler hfiller, rfl, by rwa [entriesOf_filler hfiller]⟩
      | @openSection s =>
        obtain ⟨inner, left, hinner, rfl, hleft⟩ := completes_inSection_iff.mp h
        exact .inr ⟨.element s.name inner, left, .fullSection s hinner,
          (tokens_element ..).symm, by rwa [entriesOf_section]⟩

theorem completes_beforeRoot_iff :
    Completes .beforeRoot b ts b' ↔
      ∃ doc, Document doc ∧ ts = tokensIn doc ∧ b.recordAll (entriesIn doc) = b' := by
  constructor
  · intro h
    -- The induction goes through the white space in front; with the root it is over.
    induction ts with
    | nil => cases (completes_nil_iff.mp h).1
    | cons t ts ih =>
      obtain ⟨q, c, hmove, h⟩ := h.exists_move
      cases hmove with
      | @filler _ _ raw _ hfiller =>
        obtain ⟨doc, ⟨hbefore, hroot, hafter⟩, rfl, rfl⟩ := ih h
        exact ⟨_, .around (List.forall_mem_cons.mpr ⟨hfiller, hbefore⟩) hroot hafter, rfl, rfl⟩
      | emptyRoot =>
        obtain ⟨after, hafter, rfl, rfl⟩ := completes_afterRoot_iff.mp h
        refine ⟨[] ++ .leaf rootName :: after, .around (by simp) .empty hafter, rfl, ?_⟩
        rw [entriesIn_around (by simp) hafter (contentNamed?_leaf _)]
        rfl
      | openRoot =>
        obtain ⟨content, rest, hcontent, rfl, hrest⟩ := completes_inRoot_iff.mp h
        obtain ⟨after, hafter, rfl, rfl⟩ := completes_afterRoot_iff.mp hrest
        refine ⟨[] ++ .element rootName content :: after,
          .around (by simp) (.full hcontent) hafter, by simp [tokensIn, Item.tokens], ?_⟩
        rw [entriesIn_around (by simp) hafter (contentNamed?_element _ _)]
  · rintro ⟨_, ⟨hbefore, hroot, hafter⟩, rfl, rfl⟩
    rw [tokensIn_append]
    refine .fillers (by simp) hbefore ?_
    have hend {b : Baseline} := completes_afterRoot_iff (b := b).mpr ⟨_, hafter, rfl, rfl⟩
    cases hroot with
    | empty =>
      rw [entriesIn_around hbefore hafter (contentNamed?_leaf _)]
      exact hend.cons .emptyRoot
    | @full content hcontent =>
      rw [entriesIn_around hbefore hafter (contentNamed?_element _ _)]
      have hinside := completes_inRoot_iff (b := b).mpr ⟨content, _, hcontent, rfl, hend⟩
      simpa [tokensIn, Item.tokens] using hinside.cons .openRoot

end Completes

/-! ### The ids of a document -/

def textsFor (s : Section) (entries : List (Section × String)) : List String :=
  entries.filterMap fun e => if e.1 = s then some e.2 else none

theorem recordAll_eq (entries : List (Section × String)) (b : Baseline) :
    b.recordAll entries =
      { manual := (legible (textsFor .manual entries)).foldl (fun ts id => ts.insert id) b.manual
        current :=
          (legible (textsFor .current entries)).foldl (fun ts id => ts.insert id) b.current } := by
  induction entries generalizing b with
  | nil => rfl
  | cons e rest ih =>
    obtain ⟨s, text⟩ := e
    rw [recordAll, List.foldl_cons, ← recordAll, ih]
    by_cases h : (Text.trim text).isEmpty = true
    · cases s <;> simp [record, legible, textsFor, h]
    · cases s <;> simp [record, legible, textsFor, h]

theorem textsFor_flatMap {α : Type} (s : Section) (f : α → List (Section × String)) (xs : List α) :
    textsFor s (xs.flatMap f) = xs.flatMap fun x => textsFor s (f x) :=
  List.filterMap_flatMap

theorem textsFor_map (s s' : Section) (ids : List String) :
    textsFor s (ids.map (s', ·)) = if s' = s then ids else [] := by
  rw [textsFor, List.filterMap_map]
  by_cases h : s' = s <;> simp [h]

theorem textsFor_entriesOf (s : Section) (x : Item) :
    textsFor s (entriesOf x) = (contentNamed? s.name x).toList.flatMap idsIn := by
  unfold entriesOf
  simp only [textsFor_flatMap, textsFor_map]
  cases s <;> simp

theorem textsFor_entriesIn (s : Section) (doc : List Item) :
    textsFor s (entriesIn doc) = idsOf s doc := by
  rw [entriesIn, textsFor_flatMap, idsOf]
  refine List.flatMap_congr fun root _ => ?_
  rw [textsFor_flatMap, contentsNamed, List.filterMap_eq_flatMap_toList, List.flatMap_assoc]
  exact List.flatMap_congr fun x _ => textsFor_entriesOf s x

theorem recordAll_entriesIn (doc : List Item) :
    ({} : Baseline).recordAll (entriesIn doc) = gathered doc := by
  rw [recordAll_eq, textsFor_entriesIn, textsFor_entriesIn]
  rfl

theorem ofTokens_eq_ok_iff {ts : List Token} {b : Baseline} :
    ofTokens ts = .ok b ↔ Completes .beforeRoot {} ts b := by
  rw [ofTokens_eq]
  unfold Completes
  constructor
  · intro h
    obtain ⟨⟨p, read⟩, hread, h⟩ := Success.of_bind h
    cases p with
    | afterRoot =>
      obtain rfl := Except.ok.inj h
      exact hread
    | beforeRoot | inRoot | inSection _ | inId _ _ => cases h
  · intro h
    rw [h]
    rfl

/-- A token sequence is read as a baseline just when it is written by a document of the grammar,
and the baseline holds the ids of that document: of each section the trimmed texts of its ids, all
that are not blank. -/
theorem reading_accepts_exactly_documents {ts : List Token} {b : Baseline} :
    ofTokens ts = .ok b ↔ ∃ doc, Document doc ∧ ts = tokensIn doc ∧ b = gathered doc := by
  rw [ofTokens_eq_ok_iff, completes_beforeRoot_iff]
  simp only [recordAll_entriesIn, eq_comm (a := gathered _)]

end Baseline

end CodeAudit
