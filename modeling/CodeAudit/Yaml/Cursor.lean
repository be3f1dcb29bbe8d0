namespace CodeAudit.Yaml

/-- The characters still to be read, and where they start. -/
structure Cursor where
  chars : List Char
  index : Nat := 0
  line : Nat := 0
  column : Nat := 0
deriving Inhabited

def isBreak (c : Char) : Bool :=
  c == '\n' || c == '\r' || c.toNat == 0x85 || c.toNat == 0x2028 || c.toNat == 0x2029

def isGap (c : Char) : Bool :=
  c == ' ' || c == '\t'

/-- Letters, digits, `_` and `-`: the characters of anchors, tag handles and directive names. -/
def isWordChar (c : Char) : Bool :=
  c.isAlphanum || c == '_' || c == '-'

def isPrintable (c : Char) : Bool :=
  let n := c.toNat
  n == 0x09 || n == 0x0A || n == 0x0D || (0x20 ≤ n && n ≤ 0x7E) || n == 0x85 ||
    (0xA0 ≤ n && n ≤ 0xD7FF) || (0xE000 ≤ n && n ≤ 0xFFFD) || 0x10000 ≤ n

namespace Cursor

def peek (c : Cursor) (n : Nat := 0) : Option Char := c.chars[n]?

def isAt (c : Cursor) (x : Char) (n : Nat := 0) : Bool := c.peek n == some x

def atEnd (c : Cursor) : Bool := c.chars.isEmpty

def atGap (c : Cursor) : Bool := (c.peek).any isGap

def atBreak (c : Cursor) (n : Nat := 0) : Bool := (c.peek n).any isBreak

def atBreakOrEnd (c : Cursor) (n : Nat := 0) : Bool := (c.peek n).all isBreak

def atBlankOrEnd (c : Cursor) (n : Nat := 0) : Bool :=
  (c.peek n).all fun x => isGap x || isBreak x

/-- Past one character that is no line break. -/
def skip (c : Cursor) (n : Nat := 1) : Cursor :=
  { c with chars := c.chars.drop n, index := c.index + n, column := c.column + n }

def takeRun (c : Cursor) (p : Char → Bool) : List Char × Cursor :=
  let run := c.chars.takeWhile p
  (run, c.skip run.length)

def skipRun (c : Cursor) (p : Char → Bool) : Cursor := (c.takeRun p).2

/-- Past a line break; the two characters of a CR LF count as one break. The text is the break's
normal form: the line and paragraph separators stay, every other break is a line feed. -/
def takeBreak (c : Cursor) : List Char × Cursor :=
  match c.chars with
  | '\r' :: '\n' :: rest =>
    (['\n'], { chars := rest, index := c.index + 2, line := c.line + 1, column := 0 })
  | x :: rest =>
    if isBreak x then
      let text := if x.toNat == 0x2028 || x.toNat == 0x2029 then [x] else ['\n']
      (text, { chars := rest, index := c.index + 1, line := c.line + 1, column := 0 })
    else ([], c)
  | [] => ([], c)

def skipBreak (c : Cursor) : Cursor := c.takeBreak.2

def atDocumentMark (c : Cursor) : Bool :=
  c.column == 0 && (c.chars.take 3 == ['-', '-', '-'] || c.chars.take 3 == ['.', '.', '.']) &&
    c.atBlankOrEnd 3

def skipComment (c : Cursor) : Cursor :=
  if c.isAt '#' then c.skipRun (fun x => !isBreak x) else c

end Cursor

end CodeAudit.Yaml
