import CodeAudit.Baseline.Document
import CodeAudit.Proofs.Success

namespace CodeAudit.Baseline

/-- Where in a document the reading is. -/
inductive Position where
  | beforeRoot
  | inRoot
  | inSection (s : Section)
  | inId (s : Section) (text : String)
  | afterRoot
deriving DecidableEq, Repr

/-- The names of the elements around a position, outermost first. -/
def Position.elements : Position → List String
  | beforeRoot | afterRoot => []
  | inRoot => [rootName]
  | inSection s => [rootName, s.name]
  | inId s _ => [rootName, s.name, idName]

def openElement (p : Position) (name : String) : Except Defect Position :=
  match p with
  | .beforeRoot => if name == rootName then .ok .inRoot else .error (.unexpectedRoot name)
  | .afterRoot => .error (.unexpectedRoot name)
  | .inRoot =>
    match Section.ofName? name with
    | some s => .ok (.inSection s)
    | none => .error (.unexpectedElement name)
  | .inSection s => if name == idName then .ok (.inId s "") else .error (.unexpectedElement name)
  | .inId _ _ => .error (.unexpectedElement name)

def emptyElement (p : Position) (name : String) : Except Defect Position :=
  match p with
  | .beforeRoot => if name == rootName then .ok .afterRoot else .error (.unexpectedElement name)
  | .inRoot =>
    if (Section.ofName? name).isSome then .ok p else .error (.unexpectedElement name)
  | .inSection _ => if name == idName then .ok p else .error (.unexpectedElement name)
  | .afterRoot | .inId _ _ => .error (.unexpectedElement name)

def readText (p : Position) (text : String) : Except Defect Position :=
  match p with
  | .inId s before => .ok (.inId s (before ++ text))
  | _ => if Text.isBlankText text then .ok p else .error (.unexpectedText (Text.trim text))

/-- Leaves the innermost element, which must have the name. -/
def closeElement (p : Position) (b : Baseline) (name : String) :
    Except Defect (Position × Baseline) :=
  if p.elements.getLast? != some name then .error .malformed
  else
    match p with
    | .inId s text => .ok (.inSection s, record b s text)
    | .inSection _ => .ok (.inRoot, b)
    | .inRoot => .ok (.afterRoot, b)
    | .beforeRoot | .afterRoot => .error .malformed

def step (state : Position × Baseline) (token : Xml.Token) :
    Except Defect (Position × Baseline) :=
  match token with
  | .start name => (openElement state.1 name).map (·, state.2)
  | .empty name => (emptyElement state.1 name).map (·, state.2)
  | .close name => closeElement state.1 state.2 name
  | .text raw =>
    match Xml.unescapeList? raw with
    | some text => (readText state.1 (String.ofList text)).map (·, state.2)
    | none => .error .malformed
  | .broken => .error .malformed

/-- What a reading comes to that ends at the position. -/
def Position.finish (b : Baseline) : Position → Except Defect Baseline
  | beforeRoot => .error .missingRoot
  | afterRoot => .ok b
  | p => .error (.unclosed p.elements)

/-! ### A reading goes from position to position -/

/-- The reading at the position. What it keeps of the last id counts only inside one. -/
def Position.reading (b : Baseline) (last : String) : Position → Reading
  | beforeRoot => { found := b, id := last }
  | inRoot => { found := b, stack := [rootName], id := last, seenRoot := true }
  | inSection s =>
    { found := b, stack := [rootName, s.name], kind? := some s, id := last, seenRoot := true }
  | inId s text =>
    { found := b, stack := [rootName, s.name, idName], kind? := some s, id := text,
      seenRoot := true }
  | afterRoot => { found := b, id := last, seenRoot := true }

/-- The reading is at the position and has found the baseline. -/
def Reading.IsAt (r : Reading) (state : Position × Baseline) : Prop :=
  ∃ last, r = state.1.reading state.2 last

theorem Section.eq_name_of_ofName? {name : String} {s : Section} (h : ofName? name = some s) :
    name = s.name := by
  unfold ofName? at h
  split at h
  next hname =>
    cases h
    exact beq_iff_eq.mp hname
  next =>
    split at h
    next hname =>
      cases h
      exact beq_iff_eq.mp hname
    next => cases h

namespace Reading.IsAt

variable {r : Reading} {p : Position} {b : Baseline}

theorem openElement (h : r.IsAt (p, b)) (name : String) :
    Success.Related IsAt (r.openElement name) ((Baseline.openElement p name).map (·, b)) := by
  obtain ⟨last, rfl⟩ := h
  cases p with
  | beforeRoot =>
    simp only [Position.reading, Reading.openElement, Baseline.openElement, List.length_nil,
      Bool.not_false, Bool.and_true]
    split
    next hname =>
      obtain rfl := beq_iff_eq.mp hname
      exact .ok ⟨last, rfl⟩
    next => exact .error _
  | afterRoot =>
    simp only [Position.reading, Reading.openElement, Baseline.openElement, List.length_nil,
      Bool.not_true, Bool.and_false]
    exact .error _
  | inRoot =>
    simp only [Position.reading, Reading.openElement, Baseline.openElement, List.length_cons,
      List.length_nil]
    cases hs : Section.ofName? name with
    | some s =>
      obtain rfl := Section.eq_name_of_ofName? hs
      exact .ok ⟨last, rfl⟩
    | none => exact .error _
  | inSection s =>
    simp only [Position.reading, Reading.openElement, Baseline.openElement, List.length_cons,
      List.length_nil, Option.isSome_some, Bool.and_true]
    split
    next hname =>
      obtain rfl := beq_iff_eq.mp hname
      exact .ok ⟨last, rfl⟩
    next => exact .error _
  | inId s text => exact .error _

theorem emptyElement (h : r.IsAt (p, b)) (name : String) :
    Success.Related IsAt (r.emptyElement name) ((Baseline.emptyElement p name).map (·, b)) := by
  obtain ⟨last, rfl⟩ := h
  cases p with
  | beforeRoot =>
    simp only [Position.reading, Reading.emptyElement, Baseline.emptyElement, List.length_nil,
      Bool.not_false, Bool.and_true]
    split
    next => exact .ok ⟨last, rfl⟩
    next => exact .error _
  | afterRoot =>
    simp only [Position.reading, Reading.emptyElement, Baseline.emptyElement, List.length_nil,
      Bool.not_true, Bool.and_false]
    exact .error _
  | inRoot | inSection s =>
    simp only [Position.reading, Reading.emptyElement, Baseline.emptyElement, List.length_cons,
      List.length_nil]
    split
    next => exact .ok ⟨last, rfl⟩
    next => exact .error _
  | inId s text => exact .error _

theorem readText (h : r.IsAt (p, b)) (text : String) :
    Success.Related IsAt (r.readText text) ((Baseline.readText p text).map (·, b)) := by
  obtain ⟨last, rfl⟩ := h
  cases p with
  | inId s before => exact .ok ⟨last, rfl⟩
  | beforeRoot | inRoot | inSection s | afterRoot =>
    simp only [Position.reading, Reading.readText, Baseline.readText, List.length_cons,
      List.length_nil]
    change Success.Related IsAt (if Text.isBlankText text then _ else _) _
    split
    next => exact .ok ⟨last, rfl⟩
    next => exact .error _

theorem closeElement (h : r.IsAt (p, b)) (name : String) :
    Success.Related IsAt (r.closeElement name) (Baseline.closeElement p b name) := by
  obtain ⟨last, rfl⟩ := h
  have hstack : (p.reading b last).stack = p.elements := by cases p <;> rfl
  unfold Reading.closeElement Baseline.closeElement
  rw [hstack]
  split
  next => exact .error _
  next hname =>
    have hlast : p.elements.getLast? = some name := by simpa using hname
    cases p with
    | inId s text =>
      obtain rfl : idName = name := Option.some.inj hlast
      simp only [Position.reading, beq_self_eq_true, if_true]
      refine .ok ⟨text, ?_⟩
      simp only [Reading.recordId, Position.reading]
      rfl
    | inSection s | inRoot => exact .ok ⟨last, rfl⟩
    | beforeRoot | afterRoot => cases hlast

theorem step {state : Position × Baseline} (h : r.IsAt state) (t : Xml.Token) :
    Success.Related IsAt (r.step t) (Baseline.step state t) := by
  obtain ⟨p, b⟩ := state
  cases t with
  | start name => exact h.openElement name
  | empty name => exact h.emptyElement name
  | close name => exact h.closeElement name
  | text raw =>
    simp only [Reading.step, Baseline.step]
    cases Xml.unescapeList? raw with
    | some text => exact h.readText (String.ofList text)
    | none => exact .error _
  | broken => exact .error _

theorem finish_eq {state : Position × Baseline} (h : r.IsAt state) :
    r.finish = state.1.finish state.2 := by
  obtain ⟨p, b⟩ := state
  obtain ⟨last, rfl⟩ := h
  cases p <;> rfl

end Reading.IsAt

theorem ofTokens_eq (ts : List Xml.Token) :
    ofTokens ts = ts.foldlM step (.beforeRoot, {}) >>= fun state => state.1.finish state.2 := by
  have hstart : Reading.IsAt {} (.beforeRoot, {}) := ⟨"", rfl⟩
  have hrun := Success.Related.foldlM (fun _ _ t h => Reading.IsAt.step h t) hstart ts
  unfold ofTokens
  generalize ts.foldlM Reading.step {} = x at hrun ⊢
  generalize ts.foldlM step (.beforeRoot, {}) = y at hrun ⊢
  cases hrun with
  | ok h => exact h.finish_eq
  | error e => rfl

end CodeAudit.Baseline
