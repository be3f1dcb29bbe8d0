import CodeAudit.Path

namespace CodeAudit

/-- A range of source text. Lines and columns count from one, offsets are byte offsets. -/
structure Span where
  startLine : Nat := 0
  startColumn : Nat := 0
  endLine : Nat := 0
  endColumn : Nat := 0
  startOffset : Nat := 0
  endOffset : Nat := 0
deriving DecidableEq, Repr, Inhabited

namespace Span

def lines (first last : Nat) : Span :=
  { startLine := first, startColumn := 1, endLine := last, endColumn := 1 }

def lineCount (s : Span) : Nat :=
  if s.endLine < s.startLine then 0 else s.endLine - s.startLine + 1

end Span

structure Location where
  path : Path
  span : Span
deriving DecidableEq, Repr, Inhabited

namespace Location

def line (l : Location) : Nat := l.span.startLine

def column (l : Location) : Nat := l.span.startColumn

def fileName (l : Location) : String := l.path.fileNameOrText

def text (l : Location) : String :=
  l.path.text ++ ":" ++ toString l.line ++ ":" ++ toString l.column

end Location

end CodeAudit
