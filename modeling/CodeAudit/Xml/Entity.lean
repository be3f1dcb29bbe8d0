import CodeAudit.Number.Reading
import CodeAudit.Text.Pieces

namespace CodeAudit.Xml

def escapeChar : Char → List Char
  | '<' => "&lt;".toList
  | '>' => "&gt;".toList
  | '&' => "&amp;".toList
  | '\'' => "&apos;".toList
  | '"' => "&quot;".toList
  | c => [c]

def escapeList (cs : List Char) : List Char := cs.flatMap escapeChar

def escape (s : String) : String := String.ofList (escapeList s.toList)

/-- The character with a number, if there is one; the number zero stands for none. -/
def charOfNumber? (n : Nat) : Option Char :=
  if n == 0 then none
  else if h : n.isValidChar then some (Char.ofNatAux n h)
  else none

/-- The character that a name between `&` and `;` stands for. -/
def entity? (name : List Char) : Option Char :=
  match name with
  | '#' :: 'x' :: digits => (Number.boundedNat? 16 (Number.pow2 32) digits).bind charOfNumber?
  | '#' :: digits => (Number.boundedNat? 10 (Number.pow2 32) digits).bind charOfNumber?
  | _ =>
    match String.ofList name with
    | "lt" => some '<'
    | "gt" => some '>'
    | "amp" => some '&'
    | "apos" => some '\''
    | "quot" => some '"'
    | _ => none

/-- The text that a written one stands for. `name` holds the characters of an entity that has been
begun, last one first. -/
def unescapeFrom? : Option (List Char) → List Char → Option (List Char)
  | none, [] => some []
  | some _, [] => none
  | none, c :: rest =>
    if c == '&' then unescapeFrom? (some []) rest else (unescapeFrom? none rest).map (c :: ·)
  | some name, c :: rest =>
    if c == ';' then do
      let e ← entity? name.reverse
      (unescapeFrom? none rest).map (e :: ·)
    else if c == '&' then none
    else unescapeFrom? (some (c :: name)) rest

def unescapeList? (cs : List Char) : Option (List Char) := unescapeFrom? none cs

end CodeAudit.Xml
