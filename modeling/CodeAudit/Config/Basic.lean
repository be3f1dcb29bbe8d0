import CodeAudit.Config.Error
import CodeAudit.Value.Merge

namespace CodeAudit

structure Config where
  root : Value
  scope : List String := []

namespace Config

def keySeparator : String := ">"

def empty : Config := { root := .mapping [] }

/-- A configuration with the given root; null stands for an empty one. -/
def ofValue : Value → Config
  | .null => empty
  | v => { root := v }

/-- A configuration from a document, whose top level must be a mapping or empty. -/
def ofDocument (v : Value) : Except ConfigError Config :=
  match v with
  | .mapping _ | .null => .ok (ofValue v)
  | other => .error (.invalid ("top level must be a mapping, found " ++ other.describe))

def sub (c : Config) (name : String) : Config := { c with scope := c.scope ++ [name] }

def keyPath (c : Config) (key : String) : String :=
  keySeparator.intercalate (c.scope ++ [key])

def node? (c : Config) : Option Value := c.root.at? c.scope

def present (c : Config) : Bool := c.node?.isSome

def raw? (c : Config) (key : String) : Option Value := c.node?.bind (·.get? key)

def keys (c : Config) : List String :=
  match c.node?.bind Value.entries? with
  | some entries => entries.filterMap fun e => e.1.scalarText?
  | none => []

/-- Lays another configuration's scope on top of this one's. A value on the way to this scope that is
no mapping ends the merge where it stands. -/
def merge (c other : Config) : Config :=
  let overlay := other.node?.getD .null
  { c with root := (Value.editAt (fun v => v.merge overlay) c.scope c.root).value }

def set (c : Config) (path : List String) (v : Value) : Config :=
  c.merge (ofValue (v.nest path))

end Config

end CodeAudit
