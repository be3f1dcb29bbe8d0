import CodeAudit.Config.Basic
import CodeAudit.Value.OfJson
import CodeAudit.Value.Yaml

namespace CodeAudit.Config

def ofYaml (text : String) : Except ConfigError Config :=
  match Value.ofYaml? text with
  | some v => ofDocument v
  | none => .error .yaml

def ofJson (text : String) : Except ConfigError Config :=
  match Value.ofJson? text with
  | some v => ofDocument v
  | none => .error .json

/-- The names a configuration file is looked for under, first to last. -/
def defaultNames : List String := [".frost.yml", ".frost.yaml", ".frost.json", "frost.yml"]

def load (fs : FileSystem) (path : Path) : Except ConfigError Config := do
  let text ← (fs.read path).mapError .io
  match path.extension?.getD "" with
  | "yaml" | "yml" => ofYaml text
  | "json" => ofJson text
  | ext => throw (.invalid ("Unknown config file format: " ++ ext))

def loadLayered (fs : FileSystem) (paths : List Path) : Except ConfigError Config :=
  paths.foldlM (fun c path => return c.merge (← load fs path)) empty

/-- The first file with a default name in one of the directories, if there is one. -/
def loadFirst (fs : FileSystem) (dirs : List Path) : Except ConfigError Config :=
  let candidates := dirs.flatMap fun dir => defaultNames.map fun name => dir.join ⟨name⟩
  match candidates.find? fs.exists? with
  | some path => load fs path
  | none => .ok empty

/-- The file with a default name in a directory, else in the user's. -/
def loadDefaultFrom (fs : FileSystem) (dir : Path) : Except ConfigError Config :=
  loadFirst fs [dir, fs.home]

def loadDefault (fs : FileSystem) : Except ConfigError Config := loadDefaultFrom fs ⟨"."⟩

end CodeAudit.Config
