import CodeAudit.Json.Reader
import CodeAudit.Value.Basic

namespace CodeAudit.Value

mutual

def ofJson : Json → Option Value
  | .null => some null
  | .bool b => some (bool b)
  | .int i => some (number (.int i))
  | .float x => some (number (.float x))
  | .str s => some (string s)
  | .arr items => (ofJsonItems items).map list
  | .obj members => (ofJsonMembers members).map mapping

def ofJsonItems : List Json → Option (List Value)
  | [] => some []
  | v :: rest => do return (← ofJson v) :: (← ofJsonItems rest)

def ofJsonMembers : List (String × Json) → Option (List (Value × Value))
  | [] => some []
  | (name, v) :: rest => do
    if rest.any fun m => m.1 == name then none
    return (string name, ← ofJson v) :: (← ofJsonMembers rest)

end

def ofJson? (text : String) : Option Value := do
  ofJson (← Json.parse? text)

end CodeAudit.Value
