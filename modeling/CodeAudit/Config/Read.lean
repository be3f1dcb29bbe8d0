import CodeAudit.Config.Basic
import CodeAudit.Number.Reading
import CodeAudit.Text.Blank

namespace CodeAudit

/-- How values of a type are read, and what to call the type when that fails. -/
structure Reader (α : Type) where
  expected : String
  read? : Value → Option α

namespace Reader

def flag : Reader Bool where
  expected := "a boolean"
  read?
    | .bool b => some b
    | .string "true" => some true
    | .string "false" => some false
    | _ => none

def text : Reader String where
  expected := "a string"
  read? := Value.scalarText?

def integer : Reader Int where
  expected := "an integer"
  read?
    | .number (.int i) => if i < Number.pow2 63 then some i else none
    | .string s => Number.parseSigned? (Text.trim s)
    | _ => none

def count : Reader Nat where
  expected := "a non-negative integer"
  read?
    | .number (.int i) => if 0 ≤ i then some i.toNat else none
    | .string s => Number.parseUnsigned? (Text.trim s)
    | _ => none

def decimal : Reader Number.Binary64 where
  expected := "a number"
  read?
    | .number (.int i) => some (Number.Binary64.ofInt i)
    | .number (.float x) => some x
    | .string s => Number.parseFloat? (Text.trim s)
    | _ => none

/-- The non-empty pieces between commas, trimmed. -/
def commaSeparated (s : String) : List String :=
  ((Text.splitOnChar ',' s).map Text.trim).filter fun p => !p.isEmpty

def texts : Reader (List String) where
  expected := "a list of strings"
  read?
    | .list items => items.mapM Value.scalarText?
    | .string s => some (commaSeparated s)
    | _ => none

end Reader

namespace Config

def value? {α : Type} (c : Config) (r : Reader α) (key : String) : Except ConfigError (Option α) :=
  match c.raw? key with
  | none | some .null => .ok none
  | some v =>
    match r.read? v with
    | some a => .ok (some a)
    | none => .error (.typeMismatch (c.keyPath key) r.expected v.describe)

def valueD {α : Type} (c : Config) (r : Reader α) (key : String) (default : α) :
    Except ConfigError α :=
  (c.value? r key).map (·.getD default)

end Config

end CodeAudit
