namespace CodeAudit.Text

/-- Lower case of a character, as far as ASCII words are concerned: `A` to `Z`, and the KELVIN SIGN,
whose lower case is `k`. The lower case of any other character is no ASCII letter. -/
def foldChar (c : Char) : Char :=
  if c.toNat == 0x212A then 'k' else c.toLower

/-- A text with every character folded; equal to an ASCII lower-case word exactly when its full
lower case is. -/
def fold (s : String) : String :=
  String.ofList (s.toList.map foldChar)

def sameAsciiFold (a b : String) : Bool :=
  a.toList.map Char.toLower == b.toList.map Char.toLower

end CodeAudit.Text
