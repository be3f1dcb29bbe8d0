namespace CodeAudit

/-- A language of patterns: whether a pattern matches somewhere in a text, or why a text is none.
The program takes it as it is given; `CodeAudit.Regex` is the one it runs with. -/
class PatternLanguage where
  compile : String → Except String (String → Bool)

/-- Whether a pattern matches a whole text: it goes into a group between anchors. -/
def PatternLanguage.compileWhole [PatternLanguage] (pattern : String) :
    Except String (String → Bool) :=
  compile ("^(?:" ++ pattern ++ ")$")

end CodeAudit
