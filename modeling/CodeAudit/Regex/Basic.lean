import CodeAudit.Regex.CharSet

namespace CodeAudit

namespace Regex

inductive Assertion where
  | textStart
  | textEnd
  | lineStart
  | lineEnd
  | crlfLineStart
  | crlfLineEnd
  | boundary (word : CharSet)
  | noBoundary (word : CharSet)
  | wordStart (word : CharSet)
  | wordEnd (word : CharSet)
  | wordStartHalf (word : CharSet)
  | wordEndHalf (word : CharSet)

end Regex

inductive Regex where
  | empty
  | set (s : Regex.CharSet)
  | assert (a : Regex.Assertion)
  | seq (a b : Regex)
  | alt (a b : Regex)
  /-- At least `least` times, and at most `most` times if there is a bound. -/
  | times (r : Regex) (least : Nat) (most : Option Nat)

namespace Regex

def seqAll : List Regex → Regex
  | [] => empty
  | [r] => r
  | r :: rest => seq r (seqAll rest)

/-- One of several alternatives; with none, nothing matches. -/
def altAll : List Regex → Regex
  | [] => set []
  | [r] => r
  | r :: rest => alt r (altAll rest)

def char (c : Char) : Regex := set (CharSet.single c)

def star (r : Regex) : Regex := times r 0 none

end Regex

end CodeAudit
