import CodeAudit.Number.Power
import CodeAudit.Yaml.Scalar

/-!
Tokens of YAML text. Block structure is turned into explicit start and end tokens from columns; a
key that is only recognised by the `:` behind it is marked by inserting a token where it began.
-/

namespace CodeAudit.Yaml

inductive Token where
  | versionDirective (major minor : Nat)
  | tagDirective (handle lead : String)
  | documentStart
  | documentEnd
  | blockSequenceStart
  | blockMappingStart
  | blockEnd
  | flowSequenceStart
  | flowSequenceEnd
  | flowMappingStart
  | flowMappingEnd
  | blockEntry
  | flowEntry
  | key
  | value
  | alias (name : String)
  | anchor (name : String)
  | tag (handle suffix : String)
  | scalar (text : String) (plain : Bool)
deriving DecidableEq, Inhabited

/-! ### Tags, anchors and directives -/

/-- The characters of a tag's URI; `verbatim` tags may also hold flow indicators. -/
def isUriChar (verbatim : Bool) (c : Char) : Bool :=
  isWordChar c ||
    [';', '/', '?', ':', '@', '&', '=', '+', '$', '.', '%', '!', '~', '*', '\'', '(', ')'].contains c ||
    (verbatim && [',', '[', ']'].contains c)

def escapedBytes : Nat → List Char → Option (List Nat × List Char)
  | 0, cs => some ([], cs)
  | n + 1, '%' :: a :: b :: rest => do
    let a ← hexDigitValue? a
    let b ← hexDigitValue? b
    let (bytes, rest) ← escapedBytes n rest
    return ((a * 16 + b) :: bytes, rest)
  | _ + 1, _ => none

/-- How many bytes a character takes whose first byte is given. -/
def utf8Width? (first : Nat) : Option Nat :=
  if first < 0x80 then some 1
  else if 0xC0 ≤ first && first < 0xE0 then some 2
  else if 0xE0 ≤ first && first < 0xF0 then some 3
  else if 0xF0 ≤ first && first < 0xF8 then some 4
  else none

def uriEscape? (cs : List Char) : Option (Char × List Char) := do
  let (first, _) ← escapedBytes 1 cs
  let width ← utf8Width? (first.headD 0)
  let (bytes, rest) ← escapedBytes width cs
  if !(bytes.drop 1).all fun b => 0x80 ≤ b && b < 0xC0 then none
  let lead := bytes.headD 0
  let top := if width == 1 then lead else lead % Number.pow2 (7 - width)
  let n := (bytes.drop 1).foldl (fun n b => n * 64 + b % 64) top
  if (0xD800 ≤ n && n ≤ 0xDFFF) || 0x10FFFF < n then none
  return (Char.ofNat n, rest)

def uriLoop (verbatim : Bool) : Nat → List Char → Cursor → Option (List Char × Cursor)
  | 0, _, _ => none
  | steps + 1, acc, c =>
    match c.peek with
    | none => some (acc, c)
    | some x =>
      if !isUriChar verbatim x then some (acc, c)
      else if x == '%' then do
        let (y, rest) ← uriEscape? c.chars
        uriLoop verbatim steps (acc ++ [y]) (c.skip (c.chars.length - rest.length))
      else uriLoop verbatim steps (acc ++ [x]) c.skip

/-- The URI of a tag that starts with `head`, whose leading `!` is left out; an empty tag is
malformed. -/
def scanUri (verbatim : Bool) (head : List Char) (c : Cursor) : Option (String × Cursor) := do
  let (uri, d) ← uriLoop verbatim (c.chars.length + 1) [] c
  if head.isEmpty && d.index == c.index then none
  return (String.ofList (head.drop 1 ++ uri), d)

def scanHandle (c : Cursor) : Option (List Char × Cursor) :=
  if !c.isAt '!' then none
  else
    let (word, c) := c.skip.takeRun isWordChar
    if c.isAt '!' then some ('!' :: word ++ ['!'], c.skip) else some ('!' :: word, c)

def scanTag (inFlow : Bool) (c : Cursor) : Option (Token × Cursor) := do
  let (token, c) ←
    if c.isAt '<' 1 then do
      let (suffix, c) ← scanUri true [] (c.skip 2)
      if !c.isAt '>' then none
      pure (Token.tag "" suffix, c.skip)
    else do
      let (handle, c) ← scanHandle c
      if 1 < handle.length && handle.getLast? == some '!' then
        let (suffix, c) ← scanUri false [] c
        pure (Token.tag (String.ofList handle) suffix, c)
      else
        let (suffix, c) ← scanUri false handle c
        pure (if suffix.isEmpty then Token.tag "" "!" else Token.tag "!" suffix, c)
  if c.atBlankOrEnd || (inFlow && c.isAt ',') then return (token, c) else none

def scanName (c : Cursor) : Option (String × Cursor) :=
  let (name, c) := c.skip.takeRun isWordChar
  let ends := c.atBlankOrEnd || (c.peek).any ['?', ':', ',', ']', '\x7d', '%', '@', '`'].contains
  if name.isEmpty || !ends then none else some (String.ofList name, c)

def versionNumber? (c : Cursor) : Option (Nat × Cursor) :=
  let (digits, c) := c.takeRun Char.isDigit
  if digits.isEmpty || 9 < digits.length then none
  else some (digits.foldl (fun n d => n * 10 + (d.toNat - '0'.toNat)) 0, c)

def scanDirective (c : Cursor) : Option (Token × Cursor) := do
  let (name, c) := c.skip.takeRun isWordChar
  if name.isEmpty || !c.atBlankOrEnd then none
  let c := c.skipRun isGap
  let (token, c) ←
    match String.ofList name with
    | "YAML" => do
      let (major, c) ← versionNumber? c
      if !c.isAt '.' then none
      let (minor, c) ← versionNumber? c.skip
      pure (Token.versionDirective major minor, c)
    | "TAG" => do
      let (handle, c) ← scanHandle c
      if handle != ['!'] && handle.getLast? != some '!' then none
      if !c.atGap then none
      let (lead, c) ← scanUri true [] (c.skipRun isGap)
      if !c.atBlankOrEnd then none
      pure (Token.tagDirective (String.ofList handle) lead, c)
    | _ => none
  let c := (c.skipRun isGap).skipComment
  if !c.atBreakOrEnd then none
  return (token, c.skipBreak)

/-! ### The scanner -/

/-- A place where a key may have begun that a later `:` would confirm. -/
structure PendingKey where
  required : Bool
  token : Nat
  index : Nat
  line : Nat
  column : Nat

structure Scanner where
  cursor : Cursor
  tokens : Array Token := #[]
  flow : Nat := 0
  indent : Int := -1
  outerIndents : List Int := []
  keyAllowed : Bool := true
  pending : Option PendingKey := none
  outerPending : List (Option PendingKey) := []

namespace Scanner

def emit (s : Scanner) (t : Token) : Scanner := { s with tokens := s.tokens.push t }

def openBlock (s : Scanner) (column : Nat) (at? : Option Nat) (t : Token) : Scanner :=
  if s.flow == 0 && s.indent < (column : Int) then
    let tokens :=
      match at? with
      | some i => s.tokens.insertIdxIfInBounds i t
      | none => s.tokens.push t
    { s with tokens, indent := column, outerIndents := s.indent :: s.outerIndents }
  else s

def closeBlocks (column : Int) : List Int → Scanner → Scanner
  | [], s => s
  | outer :: rest, s =>
    if column < s.indent then
      closeBlocks column rest
        { s with tokens := s.tokens.push .blockEnd, indent := outer, outerIndents := rest }
    else s

def unindent (s : Scanner) (column : Int) : Scanner :=
  if s.flow == 0 then closeBlocks column s.outerIndents s else s

def dropPending (s : Scanner) : Option Scanner :=
  match s.pending with
  | some k => if k.required then none else some { s with pending := none }
  | none => some s

def savePending (s : Scanner) : Option Scanner :=
  if s.keyAllowed then do
    let s ← s.dropPending
    let c := s.cursor
    return { s with
      pending := some {
        required := s.flow == 0 && s.indent == (c.column : Int)
        token := s.tokens.size
        index := c.index
        line := c.line
        column := c.column } }
  else some s

/-- A key must end on the line it began on, within 1024 characters. -/
def isStale (c : Cursor) (k : PendingKey) : Bool :=
  k.line < c.line || k.index + 1024 < c.index

/-- Gives up the pending keys that can no longer be confirmed. -/
def dropStale (s : Scanner) : Option Scanner := do
  let check (k : Option PendingKey) : Option (Option PendingKey) :=
    match k with
    | some k => if isStale s.cursor k then (if k.required then none else some none) else some (some k)
    | none => some none
  let pending ← check s.pending
  let outerPending ← s.outerPending.mapM check
  return { s with pending, outerPending }

/-- Past white space, comments and line breaks. In a block, tabs may not stand where a key could,
and a new line allows a key. -/
def skipToToken : Nat → Scanner → Scanner
  | 0, s => s
  | steps + 1, s =>
    let c := s.cursor
    let c := if c.index == 0 && (c.peek).any (·.toNat == 0xFEFF) then c.skip else c
    let tabs := 0 < s.flow || !s.keyAllowed
    let c := (c.skipRun fun x => x == ' ' || (tabs && x == '\t')).skipComment
    if c.atBreak then
      skipToToken steps
        { s with cursor := c.skipBreak, keyAllowed := s.keyAllowed || s.flow == 0 }
    else { s with cursor := c }

def fetchFlowStart (s : Scanner) (t : Token) : Option Scanner := do
  let s ← s.savePending
  return { s.emit t with
    flow := s.flow + 1
    pending := none
    outerPending := s.pending :: s.outerPending
    keyAllowed := true
    cursor := s.cursor.skip }

def fetchFlowEnd (s : Scanner) (t : Token) : Option Scanner := do
  let s ← s.dropPending
  let s :=
    match s.outerPending with
    | p :: rest => { s with flow := s.flow - 1, pending := p, outerPending := rest }
    | [] => s
  return { s.emit t with keyAllowed := false, cursor := s.cursor.skip }

def fetchFlowEntry (s : Scanner) : Option Scanner := do
  let s ← s.dropPending
  return { s.emit .flowEntry with keyAllowed := true, cursor := s.cursor.skip }

def fetchBlockEntry (s : Scanner) : Option Scanner := do
  if s.flow == 0 && !s.keyAllowed then none
  let s := s.openBlock s.cursor.column none .blockSequenceStart
  let s ← s.dropPending
  return { s.emit .blockEntry with keyAllowed := true, cursor := s.cursor.skip }

def fetchKey (s : Scanner) : Option Scanner := do
  if s.flow == 0 && !s.keyAllowed then none
  let s := s.openBlock s.cursor.column none .blockMappingStart
  let s ← s.dropPending
  return { s.emit .key with keyAllowed := s.flow == 0, cursor := s.cursor.skip }

def fetchValue (s : Scanner) : Option Scanner := do
  match s.pending with
  | some k =>
    let s := { s with tokens := s.tokens.insertIdxIfInBounds k.token .key }
    let s := s.openBlock k.column (some k.token) .blockMappingStart
    return { s.emit .value with pending := none, keyAllowed := false, cursor := s.cursor.skip }
  | none =>
    if s.flow == 0 && !s.keyAllowed then none
    let s := s.openBlock s.cursor.column none .blockMappingStart
    return { s.emit .value with keyAllowed := s.flow == 0, cursor := s.cursor.skip }

def fetchContent (s : Scanner) (scan : Cursor → Option (Token × Cursor)) : Option Scanner := do
  let s ← s.savePending
  let (t, c) ← scan s.cursor
  return { s.emit t with keyAllowed := false, cursor := c }

def fetchPlain (s : Scanner) : Option Scanner := do
  let s ← s.savePending
  let (text, newLine, c) ← plainScalar (0 < s.flow) s.indent s.cursor
  return { s.emit (.scalar text true) with keyAllowed := newLine, cursor := c }

def fetchBlockScalar (s : Scanner) (literal : Bool) : Option Scanner := do
  let s ← s.dropPending
  let (text, c) ← blockScalar literal s.indent s.cursor
  return { s.emit (.scalar text false) with keyAllowed := true, cursor := c }

def fetchDocumentMark (s : Scanner) (t : Token) : Option Scanner := do
  let s := s.unindent (-1)
  let s ← s.dropPending
  return { s.emit t with keyAllowed := false, cursor := s.cursor.skip 3 }

def fetchDirective (s : Scanner) : Option Scanner := do
  let s := s.unindent (-1)
  let s ← s.dropPending
  let (t, c) ← scanDirective s.cursor
  return { s.emit t with keyAllowed := false, cursor := c }

/-- Characters that cannot begin a plain scalar on their own. -/
def isIndicator (c : Char) : Bool :=
  ['-', '?', ':', ',', '[', ']', '\x7b', '\x7d', '#', '&', '*', '!', '|', '>', '\'', '"', '%', '@',
    '`'].contains c

/-- The next token; the position is at its first character. -/
def fetchAt (s : Scanner) (x : Char) : Option Scanner :=
  let c := s.cursor
  let inFlow := 0 < s.flow
  if c.column == 0 && x == '%' then s.fetchDirective
  else if c.atDocumentMark then
    s.fetchDocumentMark (if x == '-' then .documentStart else .documentEnd)
  else if x == '[' then s.fetchFlowStart .flowSequenceStart
  else if x == '\x7b' then s.fetchFlowStart .flowMappingStart
  else if x == ']' then s.fetchFlowEnd .flowSequenceEnd
  else if x == '\x7d' then s.fetchFlowEnd .flowMappingEnd
  else if x == ',' then s.fetchFlowEntry
  else if x == '-' && c.atBlankOrEnd 1 then s.fetchBlockEntry
  else if x == '?' && (inFlow || c.atBlankOrEnd 1) then s.fetchKey
  else if x == ':' && (inFlow || c.atBlankOrEnd 1) then s.fetchValue
  else if x == '*' then
    s.fetchContent fun c => do let (n, c) ← scanName c; return (.alias n, c)
  else if x == '&' then
    s.fetchContent fun c => do let (n, c) ← scanName c; return (.anchor n, c)
  else if x == '!' then s.fetchContent (scanTag inFlow)
  else if x == '|' && !inFlow then s.fetchBlockScalar true
  else if x == '>' && !inFlow then s.fetchBlockScalar false
  else if x == '\'' || x == '"' then
    s.fetchContent fun c => do let (t, c) ← quotedScalar (x == '\'') c; return (.scalar t false, c)
  else
    -- An indicator begins a plain scalar only where no blank follows it.
    let plain :=
      (!(isGap x || isBreak x) && !isIndicator x) ||
        (x == '-' && !(c.peek 1).any isGap) ||
        (!inFlow && (x == '?' || x == ':') && !c.atBlankOrEnd 1)
    if plain then s.fetchPlain else none

def run : Nat → Scanner → Option (List Token)
  | 0, _ => none
  | steps + 1, s => do
    let s := skipToToken (s.cursor.chars.length + 1) s
    let s ← s.dropStale
    let s := s.unindent s.cursor.column
    match s.cursor.peek with
    | none =>
      let s := s.unindent (-1)
      let s ← s.dropPending
      return s.tokens.toList
    | some x =>
      let s ← s.fetchAt x
      run steps s

end Scanner

def tokens? (text : String) : Option (List Token) :=
  let cs := text.toList
  if cs.all isPrintable then Scanner.run (cs.length + 2) { cursor := { chars := cs } } else none

end CodeAudit.Yaml
