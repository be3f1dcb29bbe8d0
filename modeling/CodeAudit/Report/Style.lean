import CodeAudit.Text.Pieces

namespace CodeAudit

inductive Style where
  | boldRed
  | boldYellow
  | red
  | yellow
  | blue
  | dimmed
  | underlined
deriving DecidableEq, Repr

namespace Style

def codes : Style → String
  | boldRed => "1;31"
  | boldYellow => "1;33"
  | red => "31"
  | yellow => "33"
  | blue => "34"
  | dimmed => "2"
  | underlined => "4"

def escape (codes : String) : String := "\x1b[" ++ codes ++ "m"

def reset : String := escape "0"

/-- The text in a style. Where the text itself switches styles off, this one is switched on again. -/
def apply (s : Style) (text : String) : String :=
  let on := escape s.codes
  on ++ Text.replaceAll reset (reset ++ on) text ++ reset

def applyIf (colored : Bool) (s : Style) (text : String) : String :=
  if colored then s.apply text else text

end Style

end CodeAudit
