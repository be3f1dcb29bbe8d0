import CodeAudit.Yaml.Cursor

namespace CodeAudit.Yaml

/-- Content read so far, last character first, with the white space that is not yet part of it. -/
structure Folding where
  text : List Char := []
  gap : List Char := []
  firstBreak : List Char := []
  moreBreaks : List Char := []
  onNewLine : Bool := false

namespace Folding

def push (f : Folding) (x : Char) : Folding := { f with text := x :: f.text }

def append (f : Folding) (xs : List Char) : Folding := { f with text := xs.reverse ++ f.text }

/-- Makes the pending white space part of the content: one line feed becomes a space, further ones
stay. -/
def settle (f : Folding) : Folding :=
  if f.onNewLine then
    let joined :=
      if f.firstBreak == ['\n'] then
        if f.moreBreaks.isEmpty then [' '] else f.moreBreaks
      else f.firstBreak ++ f.moreBreaks
    { text := joined.reverse ++ f.text }
  else { text := f.gap.reverse ++ f.text }

def content (f : Folding) : String := String.ofList f.text.reverse

end Folding

/-! ### Plain scalars -/

/-- Whether `:` inside a flow collection stands directly before a flow indicator. -/
def atTightColon (c : Cursor) : Bool :=
  c.isAt ':' && (c.peek 1).any [',', '?', '[', ']', '\x7b', '\x7d'].contains

def atPlainEnd (inFlow : Bool) (c : Cursor) : Bool :=
  (c.isAt ':' && c.atBlankOrEnd 1) ||
    (inFlow && (c.peek).any [',', '[', ']', '\x7b', '\x7d'].contains)

def plainRun (inFlow : Bool) : Nat → Folding → Cursor → Option (Folding × Cursor)
  | 0, _, _ => none
  | steps + 1, f, c =>
    if c.atBlankOrEnd then some (f, c)
    else if inFlow && atTightColon c then none
    else if atPlainEnd inFlow c then some (f, c)
    else
      match c.peek with
      | none => some (f, c)
      | some x =>
        let f := if f.onNewLine || !f.gap.isEmpty then f.settle else f
        plainRun inFlow steps (f.push x) c.skip

/-- White space inside a plain scalar; a tab may not stand where indentation is due. -/
def plainGap (indent : Int) : Nat → Folding → Cursor → Option (Folding × Cursor)
  | 0, _, _ => none
  | steps + 1, f, c =>
    match c.peek with
    | none => some (f, c)
    | some x =>
      if isGap x then
        if f.onNewLine then
          if x == '\t' && (c.column : Int) < indent then none
          else plainGap indent steps f c.skip
        else plainGap indent steps { f with gap := f.gap ++ [x] } c.skip
      else if isBreak x then
        let (b, c) := c.takeBreak
        let f :=
          if f.onNewLine then { f with moreBreaks := f.moreBreaks ++ b }
          else { f with gap := [], firstBreak := b, onNewLine := true }
        plainGap indent steps f c
      else some (f, c)

def plainLoop (inFlow : Bool) (indent : Int) : Nat → Folding → Cursor → Option (Folding × Cursor)
  | 0, _, _ => none
  | steps + 1, f, c =>
    if c.atDocumentMark || c.isAt '#' then some (f, c)
    else do
      let (f, c) ← plainRun inFlow (c.chars.length + 1) f c
      if c.atGap || c.atBreak then
        let (f, c) ← plainGap indent (c.chars.length + 1) f c
        if !inFlow && (c.column : Int) < indent then return (f, c)
        else plainLoop inFlow indent steps f c
      else return (f, c)

def plainScalar (inFlow : Bool) (indent : Int) (c : Cursor) : Option (String × Bool × Cursor) := do
  let (f, c) ← plainLoop inFlow (indent + 1) (c.chars.length + 1) {} c
  return (f.content, f.onNewLine, c)

/-! ### Quoted scalars -/

def hexDigitValue? (c : Char) : Option Nat :=
  if c.isDigit then some (c.toNat - '0'.toNat)
  else if 'a' ≤ c && c ≤ 'f' then some (c.toNat - 'a'.toNat + 10)
  else if 'A' ≤ c && c ≤ 'F' then some (c.toNat - 'A'.toNat + 10)
  else none

def letterEscape? : Char → Option Char
  | '0' => some (Char.ofNat 0)
  | 'a' => some (Char.ofNat 7)
  | 'b' => some (Char.ofNat 8)
  | 't' => some '\t'
  | '\t' => some '\t'
  | 'n' => some '\n'
  | 'v' => some (Char.ofNat 11)
  | 'f' => some (Char.ofNat 12)
  | 'r' => some '\r'
  | 'e' => some (Char.ofNat 0x1B)
  | ' ' => some ' '
  | '"' => some '"'
  | '/' => some '/'
  | '\\' => some '\\'
  | 'N' => some (Char.ofNat 0x85)
  | '_' => some (Char.ofNat 0xA0)
  | 'L' => some (Char.ofNat 0x2028)
  | 'P' => some (Char.ofNat 0x2029)
  | _ => none

def escapeWidth? : Char → Option Nat
  | 'x' => some 2
  | 'u' => some 4
  | 'U' => some 8
  | _ => none

/-- The character with a hexadecimal code of exactly `width` digits. -/
def codeEscape? (width : Nat) (cs : List Char) : Option Char := do
  let digits ← (cs.take width).mapM hexDigitValue?
  if digits.length != width then none
  let n := digits.foldl (fun n d => n * 16 + d) 0
  if (0xD800 ≤ n && n ≤ 0xDFFF) || 0x10FFFF < n then none
  return Char.ofNat n

/-- The characters of a quoted scalar up to white space or its closing quote. A backslash before a
line break, in double quotes, joins the lines without a space. -/
def quotedRun (single : Bool) : Nat → Folding → Cursor → Option (Folding × Cursor)
  | 0, _, _ => none
  | steps + 1, f, c =>
    if c.atBlankOrEnd then some (f, c)
    else
      match c.peek with
      | none => some (f, c)
      | some x =>
        if single then
          if x == '\'' then
            -- Two single quotes in a row stand for one.
            if c.isAt '\'' 1 then quotedRun single steps (f.push '\'') (c.skip 2)
            else some (f, c)
          else quotedRun single steps (f.push x) c.skip
        else if x == '"' then some (f, c)
        else if x == '\\' then
          if c.atBreak 1 then some ({ f with onNewLine := true }, c.skip.skipBreak)
          else do
            let e ← c.peek 1
            match escapeWidth? e with
            | some width =>
              let x ← codeEscape? width (c.chars.drop 2)
              quotedRun single steps (f.push x) (c.skip (2 + width))
            | none =>
              let x ← letterEscape? e
              quotedRun single steps (f.push x) (c.skip 2)
        else quotedRun single steps (f.push x) c.skip

def quotedGap : Nat → Folding → Cursor → Option (Folding × Cursor)
  | 0, _, _ => none
  | steps + 1, f, c =>
    match c.peek with
    | none => some (f, c)
    | some x =>
      if isGap x then
        if f.onNewLine then quotedGap steps f c.skip
        else quotedGap steps { f with gap := f.gap ++ [x] } c.skip
      else if isBreak x then
        let (b, c) := c.takeBreak
        let f :=
          if f.onNewLine then { f with moreBreaks := f.moreBreaks ++ b }
          else { f with gap := [], firstBreak := b, onNewLine := true }
        quotedGap steps f c
      else some (f, c)

def quotedLoop (single : Bool) : Nat → Folding → Cursor → Option (Folding × Cursor)
  | 0, _, _ => none
  | steps + 1, f, c =>
    if c.atDocumentMark || c.atEnd then none
    else do
      let (f, c) ← quotedRun single (c.chars.length + 1) f c
      if c.isAt (if single then '\'' else '"') then return (f, c.skip)
      else
        let (f, c) ← quotedGap (c.chars.length + 1) f c
        quotedLoop single steps f.settle c

def quotedScalar (single : Bool) (c : Cursor) : Option (String × Cursor) := do
  let (f, c) ← quotedLoop single (c.chars.length + 1) {} c.skip
  return (f.content, c)

/-! ### Block scalars -/

/-- What happens to the line breaks at the end of a block scalar. -/
inductive Chomping where
  | strip
  | clip
  | keep
deriving DecidableEq

/-- Indentation and empty lines of a block scalar. An `indent` of zero is not yet known; `deepest`
is the deepest column met while looking for it. -/
def blockBreaks : Nat → Nat → Nat → List Char → Cursor → Option (Nat × List Char × Cursor)
  | 0, _, _, _, _ => none
  | steps + 1, indent, deepest, breaks, c =>
    let spaces := c.chars.takeWhile (· == ' ')
    let room := if indent == 0 then spaces.length else min spaces.length (indent - c.column)
    let c := c.skip room
    let deepest := max deepest c.column
    if (indent == 0 || c.column < indent) && c.isAt '\t' then none
    else if c.atBreak then
      let (b, c) := c.takeBreak
      blockBreaks steps indent deepest (breaks ++ b) c
    else some (deepest, breaks, c)

/-- The indentation of a block scalar's content, known or found from its first lines. -/
def contentIndent (parent : Int) (indent deepest : Nat) : Nat :=
  if indent == 0 then max 1 (max deepest (parent + 1).toNat) else indent

/-- The lines of a block scalar. `firstBreak` ends the line before, `moreBreaks` are empty lines
since; `leadingGap` says whether that line began with white space. -/
def blockLines (literal : Bool) (indent : Nat) :
    Nat → List Char → List Char → List Char → Bool → Cursor →
      Option (List Char × List Char × List Char × Cursor)
  | 0, _, _, _, _, _ => none
  | steps + 1, text, firstBreak, moreBreaks, leadingGap, c =>
    if c.column != indent || c.atEnd then some (text, firstBreak, moreBreaks, c)
    else do
      let startsWithGap := c.atGap
      let joined :=
        if !literal && firstBreak == ['\n'] && !leadingGap && !startsWithGap then
          if moreBreaks.isEmpty then [' '] else []
        else firstBreak
      let (line, c) := c.takeRun (fun x => !isBreak x)
      let text := text ++ joined ++ moreBreaks ++ line
      let (firstBreak, c) := c.takeBreak
      let (_, moreBreaks, c) ← blockBreaks (c.chars.length + 2) indent 0 [] c
      blockLines literal indent steps text firstBreak moreBreaks startsWithGap c

/-- The header of a block scalar: an optional indentation digit and chomping sign, in either
order. -/
def blockHeader (c : Cursor) : Option (Nat × Chomping × Cursor) :=
  let chomping? (c : Cursor) : Option Chomping :=
    if c.isAt '+' then some .keep else if c.isAt '-' then some .strip else none
  let digit? (c : Cursor) : Option Nat :=
    (c.peek).bind fun x => if x.isDigit then some (x.toNat - '0'.toNat) else none
  match chomping? c with
  | some chomping =>
    let c := c.skip
    match digit? c with
    | some 0 => none
    | some n => some (n, chomping, c.skip)
    | none => some (0, chomping, c)
  | none =>
    match digit? c with
    | some 0 => none
    | some n =>
      let c := c.skip
      match chomping? c with
      | some chomping => some (n, chomping, c.skip)
      | none => some (n, .clip, c)
    | none => some (0, .clip, c)

/-- A block scalar, from its indicator on, inside a block indented by `parent`. -/
def blockScalar (literal : Bool) (parent : Int) (c : Cursor) : Option (String × Cursor) := do
  let (increment, chomping, c) ← blockHeader c.skip
  let c := (c.skipRun isGap).skipComment
  if !c.atBreakOrEnd then none
  let c := c.skipBreak
  let known := if increment == 0 then 0 else (max parent 0).toNat + increment
  let (deepest, breaks, c) ← blockBreaks (c.chars.length + 2) known 0 [] c
  let indent := contentIndent parent known deepest
  let (text, firstBreak, moreBreaks, c) ←
    blockLines literal indent (c.chars.length + 2) [] [] breaks false c
  let tail :=
    match chomping with
    | .strip => []
    | .clip => firstBreak
    | .keep => firstBreak ++ moreBreaks
  return (String.ofList (text ++ tail), c)

end CodeAudit.Yaml
