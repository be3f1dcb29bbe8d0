import CodeAudit.Pattern
import CodeAudit.Regex.Match
import CodeAudit.Regex.Reader

namespace CodeAudit

/-- The language the program runs with. It has no property classes but those of `Regex.property?`
and no limit on the size of an expression. -/
instance : PatternLanguage where
  compile text :=
    match Regex.parse? text with
    | some r => .ok r.matchesIn
    | none => .error ("regex parse error: " ++ text)

end CodeAudit
